import OpenDmcn.Relay.StoreMigration

/-! The transit store writing through to its datastore (`store.go`), under any interleaving: a call
changes the maps under the lock and makes its writes there; the copies it took out are deleted in
one batch after it let go, and then what the maps hold again is written back under the lock. -/

namespace Dmcn

open Go Datastore

abbrev Copy := StoredEnvelope EncryptedEnvelope

def StoredEnvelope.key (x : Copy) : Key := relayStoreKey x.addr x.hash

def StoredEnvelope.markKey (x : Copy) : Key := relayFetchedKey x.addr x.hash

structure Section where
  puts : List (Key × Bytes)
  taken : List Copy

structure DiskStore where
  mem : MessageStore EncryptedEnvelope
  disk : Disk
  lock : Option Section
  /-- Copies out of the maps, whose batch is not committed yet, by call. -/
  deleting : List (List Copy)
  /-- Copies whose batch is committed and that are to be looked up once more, by call. -/
  restoring : List (List Copy)

def markWrite (s : MessageStore EncryptedEnvelope) (addr : String) (hash : Fixed 32) :
    List (Key × Bytes) :=
  match s.find addr hash with
  | some se => if s.fetched se.ptr then [] else [(se.markKey, [1])]
  | none => []

def markWrites (addr : String) :
    MessageStore EncryptedEnvelope → List (Fixed 32) → List (Key × Bytes)
  | _, [] => []
  | s, hash :: hashes =>
    markWrite s addr hash ++ markWrites addr (MessageStore.markOne addr s hash) hashes

def callSection (rt : StoreRuntime) (s : MessageStore EncryptedEnvelope) :
    StoreCall EncryptedEnvelope → Section
  | .store now addr env hash =>
    match s.find addr hash with
    | some _ => ⟨[], []⟩
    | none => ⟨[(relayStoreKey addr hash, persisted rt ⟨addr, hash, env, now⟩)], []⟩
  | .markFetched addr hashes => ⟨markWrites addr s hashes, []⟩
  | .ack hash => ⟨[], (s.takeFetched hash).2⟩
  | .remove addr hash => ⟨[], (s.takeOne addr hash).2⟩
  | .expire cutoffFor pick => ⟨[], (s.takeExpired cutoffFor pick).2⟩

def restoreWrites (rt : StoreRuntime) (s : MessageStore EncryptedEnvelope) (copies : List Copy) :
    List (Key × Bytes) :=
  copies.filterMap fun se =>
    (s.find se.addr se.hash).map fun again => (again.key, persisted rt again.decoded)

def deletedKeys (copies : List Copy) : List Key := copies.flatMap fun se => [se.key, se.markKey]

/-- One atomic step of some call: it enters its section, makes the next write of it, or leaves it;
the batch of a call is committed; a call enters the section that writes back. -/
inductive StoreEvent where
  | enter (c : StoreCall EncryptedEnvelope)
  | put
  | leave
  | commit (i : ℕ)
  | restore (i : ℕ)

namespace DiskStore

def step (rt : StoreRuntime) (s : DiskStore) : StoreEvent → DiskStore
  | .enter c =>
    match s.lock with
    | some _ => s
    | none => { s with mem := s.mem.call c, lock := some (callSection rt s.mem c) }
  | .put =>
    match s.lock with
    | some ⟨w :: puts, taken⟩ =>
      { s with disk := Datastore.put s.disk w.1 w.2, lock := some ⟨puts, taken⟩ }
    | _ => s
  | .leave =>
    match s.lock with
    | some ⟨[], taken⟩ =>
      { s with lock := none, deleting := if taken.isEmpty then s.deleting else s.deleting ++
        [taken] }
    | _ => s
  | .commit i =>
    match s.deleting[i]? with
    | some copies =>
      { s with
        disk := deleteAll s.disk (deletedKeys copies)
        deleting := s.deleting.eraseIdx i
        restoring := s.restoring ++ [copies] }
    | none => s
  | .restore i =>
    match s.lock, s.restoring[i]? with
    | none, some copies =>
      { s with lock := some ⟨restoreWrites rt s.mem copies, []⟩, restoring :=
        s.restoring.eraseIdx i }
    | _, _ => s

def Returned (s : DiskStore) : Prop := s.lock = none ∧ s.deleting = [] ∧ s.restoring = []

end DiskStore

/-- A copy as the store has it: the envelope on the wire, when it was queued to the second, and
whether it was fetched. -/
def MessageStore.served (s : MessageStore EncryptedEnvelope) (addr : String) (hash : Fixed 32) :
    Option (Pb.EncryptedEnvelope × Time × Bool) :=
  (s.find addr hash).map fun se => (se.envelope.toProto, se.storedAt.wholeSecond, s.fetched se.ptr)

def DiskStore.Reloads (rt : StoreRuntime) (s : DiskStore) : Prop :=
  ∀ st addr hash, (load rt st s.disk).1.served addr hash = s.mem.served addr hash

def Carries (rt : StoreRuntime) (value : Bytes) (x : Copy) : Prop :=
  ∀ now, ∃ d, pendingIn rt now value = some d ∧ d.pair = x.pair ∧
    d.envelope.toProto = x.envelope.toProto ∧ d.storedAt = x.storedAt.wholeSecond

theorem carries_persisted (rt : StoreRuntime) {x : Copy} (h : x.storedAt.unix ≠ 0) :
    Carries rt (persisted rt x.decoded) x := by
  intro now
  refine ⟨_, pendingIn_persisted rt now x.decoded, rfl, EncryptedEnvelope.toProto_reread x.envelope,
    ?_⟩
  change (if x.storedAt.unix ≠ 0 then Time.ofUnix x.storedAt.unix else now) = _
  rw [if_pos h, Time.ofUnix_unix]

namespace DiskStore

def puts (s : DiskStore) : List (Key × Bytes) := (s.lock.map Section.puts).getD []

def taken (s : DiskStore) : List Copy := (s.lock.map Section.taken).getD []

def dying (s : DiskStore) : List Copy := s.deleting.flatten ++ s.taken

/-- What holds between any two steps: the queue `q` is in memory; each copy of it is on disk, or
about to be written or looked up again; what else the disk holds is of copies on their way out; and
a marker that counts is not on its way out. -/
structure Tracks (rt : StoreRuntime) (s : DiskStore) (q : List Copy) : Prop where
  holds : s.mem.Holds q
  plain : ∀ x ∈ q, Plain x.addr
  timed : ∀ x ∈ q, x.storedAt.unix ≠ 0
  dying_plain : ∀ x ∈ s.dying, Plain x.addr
  alone : s.puts = [] ∨ s.taken = []
  writes : ∀ w ∈ s.puts, (∃ x ∈ q, w.1 = x.key ∧ Carries rt w.2 x) ∨
    ∃ x ∈ q, s.mem.fetched x.ptr = true ∧ w.1 = x.markKey
  entry : ∀ x ∈ q, (∃ value, s.disk.lookup x.key = some value ∧ Carries rt value x) ∨
    (∃ w ∈ s.puts, w.1 = x.key) ∨ ∃ y ∈ s.restoring.flatten, y.pair = x.pair
  owned : ∀ key value now d, s.disk.lookup key = some value → under relayStorePrefix key = true →
    pendingIn rt now value = some d →
    key = d.key ∧ Plain d.addr ∧ ((∃ x ∈ q, x.pair = d.pair) ∨ ∃ y ∈ s.dying, y.pair = d.pair)
  mark : ∀ x ∈ q, s.mem.fetched x.ptr = true →
    s.disk.lookup x.markKey ≠ none ∧ (∀ y ∈ s.dying, y.pair ≠ x.pair) ∨ ∃ w ∈ s.puts,
      w.1 = x.markKey
  marked : ∀ key p, s.disk.lookup key ≠ none → under relayFetchedPrefix key = true →
    parseMark key = some p → key = relayFetchedKey p.1 p.2 ∧ Plain p.1 ∧
      ((∃ x ∈ q, x.pair = p ∧ s.mem.fetched x.ptr = true) ∨ ∃ y ∈ s.dying, y.pair = p)

section Keys

variable {x y : Copy}

theorem key_eq_iff (hx : Plain x.addr) (hy : Plain y.addr) : x.key = y.key ↔ x.pair = y.pair := by
  constructor
  · exact relayStoreKey_inj hx hy
  · intro hpair
    have haddr : x.addr = y.addr := congrArg Prod.fst hpair
    have hhash : x.hash = y.hash := congrArg Prod.snd hpair
    unfold StoredEnvelope.key
    rw [haddr, hhash]

theorem markKey_eq_iff (hx : Plain x.addr) (hy : Plain y.addr) : x.markKey = y.markKey ↔
    x.pair = y.pair := by
  constructor
  · intro hkey
    have hparse := congrArg parseMark hkey
    unfold StoredEnvelope.markKey at hparse
    rw [parseMark_relayFetchedKey hx, parseMark_relayFetchedKey hy] at hparse
    exact Option.some.inj hparse
  · intro hpair
    have haddr : x.addr = y.addr := congrArg Prod.fst hpair
    have hhash : x.hash = y.hash := congrArg Prod.snd hpair
    unfold StoredEnvelope.markKey
    rw [haddr, hhash]

theorem key_ne_markKey (hx : Plain x.addr) (hy : Plain y.addr) : x.key ≠ y.markKey := by
  intro hkey
  have hstore : under relayStorePrefix x.key = true := under_relayStoreKey hx
  have hmark : under relayFetchedPrefix y.markKey = true := under_relayFetchedKey hy
  rw [hkey, not_under_both hmark] at hstore
  cases hstore

theorem mem_deletedKeys {copies : List Copy} {key : Key} :
    key ∈ deletedKeys copies ↔ ∃ y ∈ copies, key = y.key ∨ key = y.markKey := by
  simp [deletedKeys]

variable {copies : List Copy} (hcopies : ∀ y ∈ copies, Plain y.addr)

include hcopies

theorem key_mem_deletedKeys (hx : Plain x.addr) :
    x.key ∈ deletedKeys copies ↔ ∃ y ∈ copies, y.pair = x.pair := by
  rw [mem_deletedKeys]
  refine exists_congr fun y => and_congr_right fun hy => ?_
  rw [key_eq_iff hx (hcopies y hy), @eq_comm _ x.pair]
  exact or_iff_left (key_ne_markKey hx (hcopies y hy))

theorem markKey_mem_deletedKeys (hx : Plain x.addr) :
    x.markKey ∈ deletedKeys copies ↔ ∃ y ∈ copies, y.pair = x.pair := by
  rw [mem_deletedKeys]
  refine exists_congr fun y => and_congr_right fun hy => ?_
  rw [markKey_eq_iff hx (hcopies y hy), @eq_comm _ x.pair]
  exact or_iff_right (key_ne_markKey (hcopies y hy) hx).symm

end Keys

section Marks

variable {m : MessageStore EncryptedEnvelope} {q : List Copy}

theorem mem_markWrite (h : m.Holds q) (addr : String) (hash : Fixed 32) {w : Key × Bytes} :
    w ∈ markWrite m addr hash ↔
      ∃ x ∈ q, m.fetched x.ptr = false ∧ x.pair = (addr, hash) ∧ w = (x.markKey, [1]) := by
  unfold markWrite
  cases hfind : m.find addr hash with
  | none =>
    refine ⟨fun hw => absurd hw List.not_mem_nil, ?_⟩
    rintro ⟨x, hx, -, hpair, -⟩
    exact absurd hpair (h.find_eq_none.mp hfind x hx)
  | some se =>
    obtain ⟨hse, hpair⟩ := h.find_eq_some.mp hfind
    have honly : ∀ x ∈ q, x.pair = (addr, hash) → x = se :=
      fun x hx hx' => h.eq_of_pair hx hse (hx'.trans hpair.symm)
    dsimp only
    by_cases hset : m.fetched se.ptr = true
    · rw [if_pos hset]
      refine ⟨fun hw => absurd hw List.not_mem_nil, ?_⟩
      rintro ⟨x, hx, hunset, hx', -⟩
      rw [honly x hx hx', hset] at hunset
      cases hunset
    · rw [if_neg hset, List.mem_singleton]
      constructor
      · exact fun hw => ⟨se, hse, by simpa using hset, hpair, hw⟩
      · rintro ⟨x, hx, -, hx', hw⟩
        rw [hw, honly x hx hx']

theorem mem_markWrites (h : m.Holds q) (addr : String) (hashes : List (Fixed 32))
    {w : Key × Bytes} :
    w ∈ markWrites addr m hashes ↔ ∃ x ∈ q, m.fetched x.ptr = false ∧
      (m.markFetched addr hashes).fetched x.ptr = true ∧ w = (x.markKey, [1]) := by
  induction hashes generalizing m with
  | nil =>
    refine ⟨fun hw => absurd hw List.not_mem_nil, ?_⟩
    rintro ⟨x, -, hunset, hset, -⟩
    change m.fetched x.ptr = true at hset
    rw [hunset] at hset
    cases hset
  | cons hash hashes ih =>
    obtain ⟨hone, -, hflag⟩ := h.markOne addr hash
    have hrest := (hone.markFetched addr hashes).2.2
    change w ∈ markWrite m addr hash ++ _ ↔ ∃ x ∈ q, m.fetched x.ptr = false ∧
      ((MessageStore.markOne addr m hash).markFetched addr hashes).fetched x.ptr = true ∧ _
    rw [List.mem_append, mem_markWrite h, ih hone]
    constructor
    · rintro (⟨x, hx, hunset, hpair, hw⟩ | ⟨x, hx, hunset, hset, hw⟩)
      · refine ⟨x, hx, hunset, ?_, hw⟩
        rw [hrest x hx]
        exact .inl ((hflag x hx).mpr (.inr hpair))
      · refine ⟨x, hx, ?_, hset, hw⟩
        rw [Bool.eq_false_iff] at hunset ⊢
        exact fun hbefore => hunset ((hflag x hx).mpr (.inl hbefore))
    · rintro ⟨x, hx, hunset, hset, hw⟩
      by_cases hnow : (MessageStore.markOne addr m hash).fetched x.ptr = true
      · rcases (hflag x hx).mp hnow with hbefore | hpair
        · rw [hunset] at hbefore
          cases hbefore
        · exact .inl ⟨x, hx, hunset, hpair, hw⟩
      · exact .inr ⟨x, hx, by simpa using hnow, hset, hw⟩

end Marks

/-- The steps that go well: mail is queued for a recipient that makes one segment of a key, and not
in second zero; and no marker is written that a batch on its way deletes. -/
def Undisturbed (s : DiskStore) : StoreEvent → Prop
  | .enter (.store now addr _ _) => Plain addr ∧ now.unix ≠ 0
  | .put => ∀ w ∈ s.puts.head?, ∀ y ∈ s.deleting.flatten, w.1 ≠ y.markKey
  | _ => True

section Step

variable {rt : StoreRuntime} {s : DiskStore} {q : List Copy}

theorem mem_dying {x : Copy} : x ∈ s.dying ↔ x ∈ s.deleting.flatten ∨ x ∈ s.taken := List.mem_append

section Put

variable {w : Key × Bytes} {puts : List (Key × Bytes)} (hputs : s.puts = w :: puts)

include hputs

theorem Tracks.entry_put (h : s.Tracks rt q) {y : Copy} (hy : y ∈ q) (hne : y.key ≠ w.1) :
    (∃ value, (Datastore.put s.disk w.1 w.2).lookup y.key = some value ∧ Carries rt value y) ∨
    (∃ w' ∈ puts, w'.1 = y.key) ∨ ∃ z ∈ s.restoring.flatten, z.pair = y.pair := by
  have hentry := h.entry y hy
  rw [hputs] at hentry
  rcases hentry with ⟨value, hlookup, hvalue⟩ | ⟨w', hw', hkey'⟩ | hrestoring
  · refine .inl ⟨value, ?_, hvalue⟩
    rw [lookup_put, if_neg hne]
    exact hlookup
  · rcases List.mem_cons.mp hw' with rfl | hw'
    · exact absurd hkey'.symm hne
    · exact .inr (.inl ⟨w', hw', hkey'⟩)
  · exact .inr (.inr hrestoring)

theorem Tracks.mark_put (h : s.Tracks rt q) {y : Copy} (hy : y ∈ q) (hne : y.markKey ≠ w.1)
    (hfetched : s.mem.fetched y.ptr = true) :
    (Datastore.put s.disk w.1 w.2).lookup y.markKey ≠ none ∧ (∀ z ∈ s.dying, z.pair ≠ y.pair) ∨
    ∃ w' ∈ puts, w'.1 = y.markKey := by
  have hmark := h.mark y hy hfetched
  rw [hputs] at hmark
  rcases hmark with ⟨hlookup, hdead⟩ | ⟨w', hw', hkey'⟩
  · refine .inl ⟨?_, hdead⟩
    rw [lookup_put, if_neg hne]
    exact hlookup
  · rcases List.mem_cons.mp hw' with rfl | hw'
    · exact absurd hkey'.symm hne
    · exact .inr ⟨w', hw', hkey'⟩

end Put

theorem Tracks.put_entry (h : s.Tracks rt q) {w : Key × Bytes} {puts : List (Key × Bytes)}
    (hlock : s.lock = some ⟨w :: puts, []⟩) {x : Copy} (hx : x ∈ q) (hkey : w.1 = x.key)
    (hcarries : Carries rt w.2 x) :
    ({ s with disk := Datastore.put s.disk w.1 w.2, lock := some ⟨puts, []⟩ } : DiskStore).Tracks rt
      q := by
  have hputs : s.puts = w :: puts := by simp [DiskStore.puts, hlock]
  have hdying : s.dying = s.deleting.flatten ++ [] := by simp [dying, taken, hlock]
  have hplain := h.plain x hx
  have hwrites := h.writes
  have hmark := fun y hy hne => h.mark_put hputs (y := y) hy hne
  have howned := h.owned
  have hmarked := h.marked
  have hdyingPlain := h.dying_plain
  rw [hputs] at hwrites
  rw [hdying] at howned hmark hmarked hdyingPlain
  refine ⟨h.holds, h.plain, h.timed, hdyingPlain, .inr rfl, ?_, ?_, ?_, ?_, ?_⟩
  · exact fun w' hw' => hwrites w' (List.mem_cons_of_mem _ hw')
  · intro y hy
    by_cases hpair : y.pair = x.pair
    · left
      rw [h.holds.eq_of_pair hy hx hpair]
      refine ⟨w.2, ?_, hcarries⟩
      rw [lookup_put, if_pos hkey.symm]
    · have hne : y.key ≠ w.1 := by
        rw [hkey]
        exact fun heq => hpair ((key_eq_iff (h.plain y hy) hplain).mp heq)
      exact h.entry_put hputs hy hne
  · intro key value now d hlookup hunder hin
    change (Datastore.put s.disk w.1 w.2).lookup key = some value at hlookup
    rw [lookup_put] at hlookup
    split at hlookup
    · next heq =>
      cases hlookup
      obtain ⟨d', hin', hpair, -, -⟩ := hcarries now
      cases hin.symm.trans hin'
      have haddr : d.addr = x.addr := congrArg Prod.fst hpair
      refine ⟨?_, ?_, .inl ⟨x, hx, hpair.symm⟩⟩
      · rw [heq, hkey, key_eq_of_pair hpair]
        rfl
      · rw [haddr]
        exact hplain
    · exact howned key value now d hlookup hunder hin
  · intro y hy hfetched
    have hne : y.markKey ≠ w.1 := by
      rw [hkey]
      exact (key_ne_markKey hplain (h.plain y hy)).symm
    exact hmark y hy hne hfetched
  · intro key p hlookup hunder hparse
    change (Datastore.put s.disk w.1 w.2).lookup key ≠ none at hlookup
    have hne : key ≠ w.1 := by
      intro heq
      have hstore : under relayStorePrefix x.key = true := under_relayStoreKey hplain
      rw [heq, hkey] at hunder
      rw [not_under_both hunder] at hstore
      cases hstore
    rw [lookup_put, if_neg hne] at hlookup
    exact hmarked key p hlookup hunder hparse

theorem Tracks.put_mark (h : s.Tracks rt q) {w : Key × Bytes} {puts : List (Key × Bytes)}
    (hlock : s.lock = some ⟨w :: puts, []⟩) {x : Copy} (hx : x ∈ q)
    (hflag : s.mem.fetched x.ptr = true) (hkey : w.1 = x.markKey)
    (hsafe : ∀ y ∈ s.deleting.flatten, w.1 ≠ y.markKey) :
    ({ s with disk := Datastore.put s.disk w.1 w.2, lock := some ⟨puts, []⟩ } : DiskStore).Tracks rt
      q := by
  have hputs : s.puts = w :: puts := by simp [DiskStore.puts, hlock]
  have hdying : s.dying = s.deleting.flatten ++ [] := by simp [dying, taken, hlock]
  have hplain := h.plain x hx
  have hwrites := h.writes
  have hmark := fun y hy hne => h.mark_put hputs (y := y) hy hne
  have howned := h.owned
  have hmarked := h.marked
  have hdyingPlain := h.dying_plain
  rw [hputs] at hwrites
  rw [hdying] at howned hmark hmarked hdyingPlain
  refine ⟨h.holds, h.plain, h.timed, hdyingPlain, .inr rfl, ?_, ?_, ?_, ?_, ?_⟩
  · exact fun w' hw' => hwrites w' (List.mem_cons_of_mem _ hw')
  · intro y hy
    have hne : y.key ≠ w.1 := by
      rw [hkey]
      exact key_ne_markKey (h.plain y hy) hplain
    exact h.entry_put hputs hy hne
  · intro key value now d hlookup hunder hin
    change (Datastore.put s.disk w.1 w.2).lookup key = some value at hlookup
    have hne : key ≠ w.1 := by
      intro heq
      have hfetched : under relayFetchedPrefix x.markKey = true := under_relayFetchedKey hplain
      rw [heq, hkey, not_under_both hfetched] at hunder
      cases hunder
    rw [lookup_put, if_neg hne] at hlookup
    exact howned key value now d hlookup hunder hin
  · intro y hy hfetched
    by_cases hpair : y.pair = x.pair
    · left
      rw [h.holds.eq_of_pair hy hx hpair]
      refine ⟨?_, ?_⟩
      · rw [lookup_put, if_pos hkey.symm]
        exact Option.some_ne_none _
      · intro z hz hzx
        have hz' : z ∈ s.deleting.flatten ++ [] := hz
        rw [List.append_nil] at hz'
        refine hsafe z hz' ?_
        rw [hkey]
        exact (markKey_eq_iff hplain (hdyingPlain z hz)).mpr hzx.symm
    · have hne : y.markKey ≠ w.1 := by
        rw [hkey]
        exact fun heq => hpair ((markKey_eq_iff (h.plain y hy) hplain).mp heq)
      exact hmark y hy hne hfetched
  · intro key p hlookup hunder hparse
    change (Datastore.put s.disk w.1 w.2).lookup key ≠ none at hlookup
    by_cases heq : key = w.1
    · have hp : x.pair = p := by
        rw [heq, hkey, StoredEnvelope.markKey, parseMark_relayFetchedKey hplain] at hparse
        exact Option.some.inj hparse
      subst hp
      exact ⟨heq.trans hkey, hplain, .inl ⟨x, hx, rfl, hflag⟩⟩
    · rw [lookup_put, if_neg heq] at hlookup
      exact hmarked key p hlookup hunder hparse

theorem Tracks.put (h : s.Tracks rt q) (hgood : s.Undisturbed .put) :
    (s.step rt .put).Tracks rt q := by
  unfold step
  dsimp only
  split
  · next w puts taken hlock =>
    have hputs : s.puts = w :: puts := by simp [DiskStore.puts, hlock]
    have htaken : taken = [] := by
      have halone := h.alone.resolve_left (by simp [hputs])
      simpa [DiskStore.taken, hlock] using halone
    subst htaken
    have hsafe : ∀ y ∈ s.deleting.flatten, w.1 ≠ y.markKey := hgood w (by simp [hputs])
    rcases h.writes w (by simp [hputs]) with ⟨x, hx, hkey, hcarries⟩ | ⟨x, hx, hflag, hkey⟩
    · exact h.put_entry hlock hx hkey hcarries
    · exact h.put_mark hlock hx hflag hkey hsafe
  · exact h

theorem Tracks.leave (h : s.Tracks rt q) : (s.step rt .leave).Tracks rt q := by
  unfold step
  dsimp only
  split
  · next taken hlock =>
    have hputs : s.puts = [] := by simp [DiskStore.puts, hlock]
    have hdying : ∀ x, x ∈ (if taken.isEmpty then s.deleting else s.deleting ++ [taken]).flatten ++
        [] ↔
        x ∈ s.dying := by
      intro x
      rw [List.append_nil, mem_dying, show s.taken = taken by simp [DiskStore.taken, hlock]]
      split
      · next hnil => simp [List.isEmpty_iff.mp hnil]
      · simp
    have hwrites := h.writes
    have hentry := h.entry
    have hmark := h.mark
    rw [hputs] at hwrites hentry hmark
    refine ⟨h.holds, h.plain, h.timed, ?_, .inl rfl, hwrites, hentry, ?_, ?_, ?_⟩
    · exact fun x hx => h.dying_plain x ((hdying x).mp hx)
    · intro key value now d hlookup hunder hin
      obtain ⟨hkey, hplain, hown⟩ := h.owned key value now d hlookup hunder hin
      refine ⟨hkey, hplain, hown.imp_right ?_⟩
      rintro ⟨y, hy, hpair⟩
      exact ⟨y, (hdying y).mpr hy, hpair⟩
    · intro x hx hfetched
      refine (hmark x hx hfetched).imp_left ?_
      rintro ⟨hlookup, hdead⟩
      exact ⟨hlookup, fun y hy => hdead y ((hdying y).mp hy)⟩
    · intro key p hlookup hunder hparse
      obtain ⟨hkey, hplain, hown⟩ := h.marked key p hlookup hunder hparse
      refine ⟨hkey, hplain, hown.imp_right ?_⟩
      rintro ⟨y, hy, hpair⟩
      exact ⟨y, (hdying y).mpr hy, hpair⟩
  · exact h

theorem mem_flatten_eraseIdx {α : Type} {ls : List (List α)} {i : ℕ} {l : List α}
    (hi : ls[i]? = some l) {x : α} : x ∈ ls.flatten ↔ x ∈ l ∨ x ∈ (ls.eraseIdx i).flatten := by
  obtain ⟨hlt, rfl⟩ := List.getElem?_eq_some_iff.mp hi
  have hperm := List.getElem_cons_eraseIdx_perm hlt
  rw [← hperm.flatten.mem_iff, List.flatten_cons, List.mem_append]

theorem Tracks.commit (h : s.Tracks rt q) (i : ℕ) : (s.step rt (.commit i)).Tracks rt q := by
  unfold step
  dsimp only
  cases hi : s.deleting[i]? with
  | none => exact h
  | some copies =>
    have hsplit : ∀ x, x ∈ s.dying ↔ x ∈ copies ∨ x ∈ (s.deleting.eraseIdx i).flatten ++
        s.taken := by
      intro x
      rw [mem_dying, mem_flatten_eraseIdx hi, List.mem_append, or_assoc]
    have hcopies : ∀ y ∈ copies, Plain y.addr :=
      fun y hy => h.dying_plain y ((hsplit y).mpr (.inl hy))
    refine ⟨h.holds, h.plain, h.timed, ?_, h.alone, h.writes, ?_, ?_, ?_, ?_⟩
    · exact fun x hx => h.dying_plain x ((hsplit x).mpr (.inr hx))
    · -- what the batch takes of a copy that is queued again is looked up afterwards
      intro x hx
      change (∃ value, (deleteAll s.disk (deletedKeys copies)).lookup x.key = some value ∧ _) ∨ _ ∨
        ∃ y ∈ (s.restoring ++ [copies]).flatten, _
      rw [lookup_deleteAll, List.flatten_append, List.flatten_singleton]
      by_cases hmem : ∃ y ∈ copies, y.pair = x.pair
      · obtain ⟨y, hy, hpair⟩ := hmem
        exact .inr (.inr ⟨y, List.mem_append_right _ hy, hpair⟩)
      · rw [if_neg fun hkey => hmem ((key_mem_deletedKeys hcopies (h.plain x hx)).mp hkey)]
        rcases h.entry x hx with hdisk | hput | ⟨y, hy, hpair⟩
        · exact .inl hdisk
        · exact .inr (.inl hput)
        · exact .inr (.inr ⟨y, List.mem_append_left _ hy, hpair⟩)
    · intro key value now d hlookup hunder hin
      change (deleteAll s.disk (deletedKeys copies)).lookup key = some value at hlookup
      rw [lookup_deleteAll] at hlookup
      split at hlookup
      · cases hlookup
      · next hkept =>
        obtain ⟨hkey, hplain, hown⟩ := h.owned key value now d hlookup hunder hin
        refine ⟨hkey, hplain, hown.imp_right ?_⟩
        rintro ⟨y, hy, hpair⟩
        rcases (hsplit y).mp hy with hy | hy
        · refine absurd (mem_deletedKeys.mpr ⟨y, hy, .inl ?_⟩) hkept
          rw [hkey, key_eq_of_pair hpair.symm]
          rfl
        · exact ⟨y, hy, hpair⟩
    · intro x hx hfetched
      rcases h.mark x hx hfetched with ⟨hlookup, hdead⟩ | hput
      · left
        change (deleteAll s.disk (deletedKeys copies)).lookup x.markKey ≠ none ∧ _
        rw [lookup_deleteAll, if_neg]
        · exact ⟨hlookup, fun y hy => hdead y ((hsplit y).mpr (.inr hy))⟩
        · intro hkey
          obtain ⟨y, hy, hpair⟩ := (markKey_mem_deletedKeys hcopies (h.plain x hx)).mp hkey
          exact hdead y ((hsplit y).mpr (.inl hy)) hpair
      · exact .inr hput
    · intro key p hlookup hunder hparse
      change (deleteAll s.disk (deletedKeys copies)).lookup key ≠ none at hlookup
      rw [lookup_deleteAll] at hlookup
      split at hlookup
      · exact absurd rfl hlookup
      · next hkept =>
        obtain ⟨hkey, hplain, hown⟩ := h.marked key p hlookup hunder hparse
        refine ⟨hkey, hplain, hown.imp_right ?_⟩
        rintro ⟨y, hy, hpair⟩
        rcases (hsplit y).mp hy with hy | hy
        · refine absurd (mem_deletedKeys.mpr ⟨y, hy, .inr ?_⟩) hkept
          subst hpair
          exact hkey
        · exact ⟨y, hy, hpair⟩

theorem Tracks.restore (h : s.Tracks rt q) (i : ℕ) : (s.step rt (.restore i)).Tracks rt q := by
  unfold step
  dsimp only
  split
  · next copies hlock hi =>
    have hputs : s.puts = [] := by simp [DiskStore.puts, hlock]
    have htaken : s.taken = [] := by simp [DiskStore.taken, hlock]
    have hdying : s.dying = s.deleting.flatten ++ [] := by rw [dying, htaken]
    have hentry := h.entry
    have hmark := h.mark
    have howned := h.owned
    have hmarked := h.marked
    have hdyingPlain := h.dying_plain
    rw [hputs] at hentry hmark
    rw [hdying] at howned hmark hmarked hdyingPlain
    refine ⟨h.holds, h.plain, h.timed, hdyingPlain, .inr rfl, ?_, ?_, howned, ?_, hmarked⟩
    · intro w hw
      change w ∈ restoreWrites rt s.mem copies at hw
      obtain ⟨y, -, hagain⟩ := List.mem_filterMap.mp hw
      obtain ⟨x, hfind, rfl⟩ := Option.map_eq_some_iff.mp hagain
      have hx := (h.holds.find_eq_some.mp hfind).1
      exact .inl ⟨x, hx, rfl, carries_persisted rt (h.timed x hx)⟩
    · intro x hx
      rcases hentry x hx with hdisk | ⟨w, hw, -⟩ | ⟨y, hy, hpair⟩
      · exact .inl hdisk
      · exact absurd hw List.not_mem_nil
      · rcases (mem_flatten_eraseIdx hi).mp hy with hy | hy
        · refine .inr (.inl ⟨(x.key, persisted rt x.decoded), ?_, rfl⟩)
          have hfind : s.mem.find y.addr y.hash = some x :=
            h.holds.find_eq_some.mpr ⟨hx, hpair.symm⟩
          exact List.mem_filterMap.mpr ⟨y, hy, by rw [hfind]; rfl⟩
        · exact .inr (.inr ⟨y, hy, hpair⟩)
    · intro x hx hfetched
      refine .inl ((hmark x hx hfetched).resolve_right ?_)
      rintro ⟨w, hw, -⟩
      exact List.not_mem_nil hw
  · exact h

section Enter

variable (h : s.Tracks rt q) (hlock : s.lock = none)

include h hlock

omit h in
theorem dying_of_free : s.dying = s.deleting.flatten := by
  simp [dying, DiskStore.taken, hlock]

theorem Tracks.entry_of_free {x : Copy} (hx : x ∈ q) :
    (∃ value, s.disk.lookup x.key = some value ∧ Carries rt value x) ∨
      ∃ y ∈ s.restoring.flatten, y.pair = x.pair := by
  have hputs : s.puts = [] := by simp [DiskStore.puts, hlock]
  have hentry := h.entry x hx
  rw [hputs] at hentry
  simpa using hentry

theorem Tracks.mark_of_free {x : Copy} (hx : x ∈ q) (hfetched : s.mem.fetched x.ptr = true) :
    s.disk.lookup x.markKey ≠ none ∧ ∀ y ∈ s.deleting.flatten, y.pair ≠ x.pair := by
  have hputs : s.puts = [] := by simp [DiskStore.puts, hlock]
  have hmark := h.mark x hx hfetched
  rw [hputs, dying_of_free hlock] at hmark
  simpa using hmark

theorem Tracks.enter_take {mem : MessageStore EncryptedEnvelope} {gone : List Copy}
    {p : Copy → Bool} (hmem : mem.Holds (q.filter fun x => !p x))
    (hfetched : mem.fetched = s.mem.fetched) (hgone : ∀ x, x ∈ gone ↔ x ∈ q ∧ p x = true) :
    ({ s with mem := mem, lock := some ⟨[], gone⟩ } : DiskStore).Tracks rt
      (q.filter fun x => !p x) := by
  have hstay : ∀ x ∈ q, x ∈ (q.filter fun x => !p x) ∨ x ∈ gone := by
    intro x hx
    rw [hgone, List.mem_filter]
    cases hp : p x with
    | true => exact .inr ⟨hx, rfl⟩
    | false => exact .inl ⟨hx, rfl⟩
  have hdying := dying_of_free hlock
  refine ⟨hmem, ?_, ?_, ?_, .inl rfl, ?_, ?_, ?_, ?_, ?_⟩
  · exact fun x hx => h.plain x (List.mem_of_mem_filter hx)
  · exact fun x hx => h.timed x (List.mem_of_mem_filter hx)
  · intro x hx
    rcases List.mem_append.mp hx with hx | hx
    · exact h.dying_plain x (by rw [hdying]; exact hx)
    · exact h.plain x ((hgone x).mp hx).1
  · exact fun w hw => absurd hw List.not_mem_nil
  · intro x hx
    exact (h.entry_of_free hlock (List.mem_of_mem_filter hx)).imp_right .inr
  · intro key value now d hlookup hunder hin
    obtain ⟨hkey, hplain, hown⟩ := h.owned key value now d hlookup hunder hin
    refine ⟨hkey, hplain, ?_⟩
    rcases hown with ⟨x, hx, hpair⟩ | ⟨y, hy, hpair⟩
    · rcases hstay x hx with hx | hx
      · exact .inl ⟨x, hx, hpair⟩
      · exact .inr ⟨x, List.mem_append_right _ hx, hpair⟩
    · rw [hdying] at hy
      exact .inr ⟨y, List.mem_append_left _ hy, hpair⟩
  · intro x hx hflag
    change mem.fetched x.ptr = true at hflag
    rw [hfetched] at hflag
    obtain ⟨hxq, hpx⟩ := List.mem_filter.mp hx
    obtain ⟨hlookup, hdead⟩ := h.mark_of_free hlock hxq hflag
    refine .inl ⟨hlookup, fun y hy hpair => ?_⟩
    rcases List.mem_append.mp hy with hy | hy
    · exact hdead y hy hpair
    · obtain ⟨hyq, hpy⟩ := (hgone y).mp hy
      rw [h.holds.eq_of_pair hyq hxq hpair] at hpy
      rw [hpy] at hpx
      cases hpx
  · intro key p' hlookup hunder hparse
    obtain ⟨hkey, hplain, hown⟩ := h.marked key p' hlookup hunder hparse
    refine ⟨hkey, hplain, ?_⟩
    rcases hown with ⟨x, hx, hpair, hflag⟩ | ⟨y, hy, hpair⟩
    · rcases hstay x hx with hx | hx
      · refine .inl ⟨x, hx, hpair, ?_⟩
        change mem.fetched x.ptr = true
        rw [hfetched]
        exact hflag
      · exact .inr ⟨x, List.mem_append_right _ hx, hpair⟩
    · rw [hdying] at hy
      exact .inr ⟨y, List.mem_append_left _ hy, hpair⟩

theorem Tracks.enter_mark (addr : String) (hashes : List (Fixed 32)) :
    ({ s with mem := s.mem.markFetched addr hashes, lock := some ⟨markWrites addr s.mem hashes, []⟩
      } :
      DiskStore).Tracks rt q := by
  obtain ⟨hmem, -, hflags⟩ := h.holds.markFetched addr hashes
  have hdying := dying_of_free hlock
  have howned := h.owned
  have hmarked := h.marked
  have hdyingPlain := h.dying_plain
  rw [hdying, ← List.append_nil s.deleting.flatten] at howned hmarked hdyingPlain
  refine ⟨hmem, h.plain, h.timed, hdyingPlain, .inr rfl, ?_, ?_, howned, ?_, ?_⟩
  · intro w hw
    obtain ⟨x, hx, -, hset, rfl⟩ := (mem_markWrites h.holds addr hashes).mp hw
    exact .inr ⟨x, hx, hset, rfl⟩
  · intro x hx
    exact (h.entry_of_free hlock hx).imp_right .inr
  · intro x hx hset
    cases hbefore : s.mem.fetched x.ptr with
    | true =>
      obtain ⟨hlookup, hdead⟩ := h.mark_of_free hlock hx hbefore
      refine .inl ⟨hlookup, fun y hy => hdead y ?_⟩
      have hy' : y ∈ s.deleting.flatten ++ [] := hy
      rwa [List.append_nil] at hy'
    | false =>
      exact .inr ⟨(x.markKey, [1]), (mem_markWrites h.holds addr hashes).mpr
        ⟨x, hx, hbefore, hset, rfl⟩, rfl⟩
  · intro key p hlookup hunder hparse
    obtain ⟨hkey, hplain, hown⟩ := hmarked key p hlookup hunder hparse
    refine ⟨hkey, hplain, hown.imp_left ?_⟩
    rintro ⟨x, hx, hpair, hflag⟩
    exact ⟨x, hx, hpair, (hflags x hx).mpr (.inl hflag)⟩

theorem Tracks.enter_add {now : Time} {addr : String} {hash : Fixed 32} (env : EncryptedEnvelope)
    (hfind : s.mem.find addr hash = none) (hplain : Plain addr) (hnow : now.unix ≠ 0) :
    ({ s with
      mem := s.mem.add now addr env hash
      lock := some ⟨[(relayStoreKey addr hash, persisted rt ⟨addr, hash, env, now⟩)], []⟩ } :
      DiskStore).Tracks rt (q ++ [⟨s.mem.allocated, env, hash, addr, now⟩]) := by
  have hmem := h.holds.add now env (h.holds.find_eq_none.mp hfind)
  have hflag : ∀ x ∈ q, (s.mem.add now addr env hash).fetched x.ptr = s.mem.fetched x.ptr :=
    fun x hx => Function.update_of_ne (h.holds.below x hx).ne _ _
  have hdying := dying_of_free hlock
  have howned := h.owned
  have hmarked := h.marked
  have hdyingPlain := h.dying_plain
  rw [hdying, ← List.append_nil s.deleting.flatten] at howned hmarked hdyingPlain
  have hlast : ∀ {P : Copy → Prop}, (∀ x ∈ q, P x) → P ⟨s.mem.allocated, env, hash, addr, now⟩ →
      ∀ x ∈ q ++ [⟨s.mem.allocated, env, hash, addr, now⟩], P x := by
    intro P hold hnew x hx
    rcases List.mem_append.mp hx with hx | hx
    · exact hold x hx
    · rw [List.mem_singleton.mp hx]
      exact hnew
  refine ⟨hmem, hlast h.plain hplain, hlast h.timed hnow, hdyingPlain, .inr rfl, ?_, ?_, ?_, ?_, ?_⟩
  · intro w hw
    obtain rfl := List.mem_singleton.mp hw
    exact .inl ⟨_, List.mem_append_right _ (List.mem_singleton_self _), rfl,
      carries_persisted rt (x := ⟨s.mem.allocated, env, hash, addr, now⟩) hnow⟩
  · refine hlast ?_ ?_
    · exact fun x hx => (h.entry_of_free hlock hx).imp_right .inr
    · exact .inr (.inl ⟨_, List.mem_singleton_self _, rfl⟩)
  · intro key value now' d hlookup hunder hin
    obtain ⟨hkey, hplain', hown⟩ := howned key value now' d hlookup hunder hin
    refine ⟨hkey, hplain', hown.imp_left ?_⟩
    rintro ⟨x, hx, hpair⟩
    exact ⟨x, List.mem_append_left _ hx, hpair⟩
  · refine hlast ?_ ?_
    · intro x hx hset
      change (s.mem.add now addr env hash).fetched x.ptr = true at hset
      rw [hflag x hx] at hset
      obtain ⟨hlookup, hdead⟩ := h.mark_of_free hlock hx hset
      refine .inl ⟨hlookup, fun y hy => hdead y ?_⟩
      have hy' : y ∈ s.deleting.flatten ++ [] := hy
      rwa [List.append_nil] at hy'
    · intro hset
      change Function.update s.mem.fetched s.mem.allocated false s.mem.allocated = true at hset
      rw [Function.update_self] at hset
      cases hset
  · intro key p hlookup hunder hparse
    obtain ⟨hkey, hplain', hown⟩ := hmarked key p hlookup hunder hparse
    refine ⟨hkey, hplain', hown.imp_left ?_⟩
    rintro ⟨x, hx, hpair, hset⟩
    exact ⟨x, List.mem_append_left _ hx, hpair, (hflag x hx).trans hset⟩

theorem Tracks.enter_idle : ({ s with lock := some ⟨[], []⟩ } : DiskStore).Tracks rt q := by
  have hall : s.mem.Holds (q.filter fun _ => !false) := by simpa using h.holds
  have htake := h.enter_take hlock hall rfl (fun x => show x ∈ [] ↔ _ by simp)
  simpa using htake

end Enter

theorem Tracks.enter (h : s.Tracks rt q) (c : StoreCall EncryptedEnvelope)
    (hgood : s.Undisturbed (.enter c)) : ∃ q', (s.step rt (.enter c)).Tracks rt q' := by
  unfold step
  dsimp only
  cases hlock : s.lock with
  | some sec => exact ⟨q, h⟩
  | none =>
    dsimp only
    cases c with
    | store now addr env hash =>
      change ∃ q', ({ s with
        mem := s.mem.store now addr env hash
        lock := some (callSection rt s.mem (.store now addr env hash)) } : DiskStore).Tracks rt q'
      unfold MessageStore.store callSection
      dsimp only
      cases hfind : s.mem.find addr hash with
      | some se => exact ⟨q, h.enter_idle hlock⟩
      | none => exact ⟨_, h.enter_add hlock env hfind hgood.1 hgood.2⟩
    | markFetched addr hashes => exact ⟨q, h.enter_mark hlock addr hashes⟩
    | ack hash =>
      exact ⟨_, h.enter_take hlock (h.holds.takeFetched hash)
        (MessageStore.fetched_unindexAll s.mem _).1
        fun x => MessageStore.mem_takeFetched h.holds⟩
    | remove addr hash =>
      refine ⟨_, h.enter_take hlock (h.holds.takeOne addr hash) ?_ fun x =>
        MessageStore.mem_takeOne h.holds⟩
      change (s.mem.takeOne addr hash).1.fetched = _
      rw [MessageStore.takeOne_fst]
      exact (MessageStore.fetched_unindexAll s.mem _).1
    | expire cutoffFor pick =>
      exact ⟨_, h.enter_take hlock (h.holds.takeExpired cutoffFor pick)
        (MessageStore.fetched_unindexAll s.mem _).1 fun x => MessageStore.mem_takeExpired h.holds⟩

theorem Tracks.step (h : s.Tracks rt q) {e : StoreEvent} (hgood : s.Undisturbed e) :
    ∃ q', (s.step rt e).Tracks rt q' := by
  cases e with
  | enter c => exact h.enter c hgood
  | put => exact ⟨q, h.put hgood⟩
  | leave => exact ⟨q, h.leave⟩
  | commit i => exact ⟨q, h.commit i⟩
  | restore i => exact ⟨q, h.restore i⟩

theorem Tracks.mixed (h : s.Tracks rt q) : Mixed rt s.disk := by
  rintro key pair ⟨value, now, d, hlookup, hunder, hin, rfl⟩
  obtain ⟨hkey, hplain, -⟩ := h.owned key value now d hlookup hunder hin
  exact ⟨hplain, .inl hkey⟩

theorem dying_of_returned (hret : s.Returned) {y : Copy} : y ∉ s.dying := by
  rw [dying_of_free hret.1, hret.2.1]
  exact List.not_mem_nil

theorem Tracks.current_of_returned (h : s.Tracks rt q) (hret : s.Returned) {x : Copy} (hx : x ∈ q)
    (st : Start) :
    ∃ d, d ∈ currents rt st (scanned st s.disk) ∧ d.pair = x.pair ∧
      d.envelope.toProto = x.envelope.toProto ∧ d.storedAt = x.storedAt.wholeSecond := by
  rcases h.entry_of_free hret.1 hx with ⟨value, hlookup, hcarries⟩ | ⟨y, hy, -⟩
  · obtain ⟨d, hin, hpair, henv, htime⟩ := hcarries (st.clock x.key)
    have hkey : d.key = x.key := key_eq_of_pair hpair
    refine ⟨d, mem_currents.mpr ⟨value, ?_, ?_, ?_⟩, hpair, henv, htime⟩
    · rw [hkey]
      exact hlookup
    · rw [hkey]
      exact under_relayStoreKey (h.plain x hx)
    · rw [hkey]
      exact hin
  · rw [hret.2.2] at hy
    cases hy

theorem Tracks.fetched_iff_of_returned (h : s.Tracks rt q) (hret : s.Returned) {x : Copy}
    (hx : x ∈ q) :
    s.mem.fetched x.ptr = true ↔ ∃ key, s.disk.lookup key ≠ none ∧
      under relayFetchedPrefix key = true ∧ parseMark key = some x.pair := by
  constructor
  · intro hset
    exact ⟨x.markKey, (h.mark_of_free hret.1 hx hset).1, under_relayFetchedKey (h.plain x hx),
      parseMark_relayFetchedKey (h.plain x hx)⟩
  · rintro ⟨key, hlookup, hunder, hparse⟩
    rcases (h.marked key x.pair hlookup hunder hparse).2.2 with ⟨y, hy, hpair, hset⟩ | ⟨y, hy, -⟩
    · rwa [h.holds.eq_of_pair hy hx hpair] at hset
    · exact absurd hy (dying_of_returned hret)

theorem Tracks.reloads (h : s.Tracks rt q) (hret : s.Returned) : s.Reloads rt := by
  intro st addr hash
  unfold MessageStore.served
  by_cases hheld : ∃ x ∈ q, x.pair = (addr, hash)
  · obtain ⟨x, hx, hpair⟩ := hheld
    obtain ⟨d, hd, hdx, henv, htime⟩ := h.current_of_returned hret hx st
    have hat := at_of_current hd
    cases hpair
    have haddr : d.addr = x.addr := congrArg Prod.fst hdx
    have hhash : d.hash = x.hash := congrArg Prod.snd hdx
    rw [haddr, hhash] at hat
    obtain ⟨se, hfind, rfl⟩ := Option.map_eq_some_iff.mp hat
    have hflag : (load rt st s.disk).1.fetched se.ptr = s.mem.fetched x.ptr := by
      rw [Bool.eq_iff_iff, fetched_load h.mixed hfind, h.fetched_iff_of_returned hret hx]
      rfl
    have htime' : se.storedAt = x.storedAt.wholeSecond := htime
    have henv' : se.envelope.toProto = x.envelope.toProto := henv
    rw [hfind, h.holds.find_eq_some.mpr ⟨hx, rfl⟩, Option.map_some, Option.map_some, hflag, htime',
      henv', Time.wholeSecond_wholeSecond]
  · have hnone : s.mem.find addr hash = none := by
      rw [h.holds.find_eq_none]
      exact fun x hx hpair => hheld ⟨x, hx, hpair⟩
    have hempty : (load rt st s.disk).1.at_ addr hash = none := by
      rcases at_cases h.mixed st addr hash with ⟨-, hat⟩ | ⟨d, hpair, -, hsource⟩
      · exact hat
      · have hpending : ∃ key, Pending rt s.disk key d.pair := by
          rcases hsource with hcurrent | ⟨-, hold⟩
          · exact ⟨_, pending_of_currents hcurrent⟩
          · exact ⟨_, (pending_of_olds hold).1⟩
        obtain ⟨key, value, now, d', hlookup, hunder, hin, hpair'⟩ := hpending
        rcases (h.owned key value now d' hlookup hunder hin).2.2 with ⟨x, hx, hx'⟩ | ⟨y, hy, -⟩
        · exact absurd ⟨x, hx, hx'.trans (hpair'.trans hpair)⟩ hheld
        · exact absurd hy (dying_of_returned hret)
    rw [Option.map_eq_none_iff.mp hempty, hnone, Option.map_none, Option.map_none]

end Step

/-- A datastore as this version of the store keeps it: each copy under its own key and with its
time, each marker under the key of the copy it names. -/
structure Kept (rt : StoreRuntime) (disk : Disk) : Prop where
  entry : ∀ key value now d, disk.lookup key = some value → under relayStorePrefix key = true →
    pendingIn rt now value = some d → key = d.key ∧ Plain d.addr ∧ stampedIn rt value = true
  mark : ∀ key p, disk.lookup key ≠ none → under relayFetchedPrefix key = true →
    parseMark key = some p → key = relayFetchedKey p.1 p.2 ∧ Plain p.1

def opened (rt : StoreRuntime) (st : Start) (disk : Disk) : DiskStore :=
  ⟨(load rt st disk).1, (load rt st disk).2, none, [], []⟩

section Opened

variable {rt : StoreRuntime} {st : Start} {disk : Disk} (h : Kept rt disk)

include h

theorem Kept.mixed : Mixed rt disk := by
  rintro key pair ⟨value, now, d, hlookup, hunder, hin, rfl⟩
  obtain ⟨hkey, hplain, -⟩ := h.entry key value now d hlookup hunder hin
  exact ⟨hplain, .inl hkey⟩

theorem Kept.no_olds {key : Key} {d : Decoded} : (key, d) ∉ olds rt st (scanned st disk) := by
  intro hold
  obtain ⟨hne, value, hlookup, hunder, hin⟩ := mem_olds.mp hold
  exact hne (h.entry key value _ d hlookup hunder hin).1

theorem Kept.current {addr : String} {hash : Fixed 32} {x : Copy}
    (hx : (load rt st disk).1.find addr hash = some x) : Plain x.addr ∧ x.storedAt.unix ≠ 0 ∧
      ∃ value, (load rt st disk).2.lookup x.key = some value ∧ Carries rt value x := by
  rcases at_cases h.mixed st addr hash with ⟨-, hat⟩ | ⟨d, hpair, hat, hcurrent | ⟨-, hold⟩⟩
  · rw [MessageStore.at_, hx] at hat
    cases hat
  · rw [MessageStore.at_, hx] at hat
    cases hat
    obtain ⟨value, hlookup, hunder, hin⟩ := mem_currents.mp hcurrent
    obtain ⟨-, hplain, hstamped⟩ := h.entry _ value _ _ hlookup hunder hin
    obtain ⟨htimed, hwhole⟩ := storedAt_of_stamped hin hstamped
    refine ⟨hplain, htimed, value, (current_kept h.mixed hcurrent).trans hlookup, fun now => ?_⟩
    obtain ⟨d', hin', -, -, hsame⟩ := pendingIn_now hin now
    rw [hsame hstamped] at hin'
    rw [Time.ofUnix_unix] at hwhole
    exact ⟨_, hin', rfl, rfl, hwhole.symm⟩
  · exact absurd hold h.no_olds

theorem tracks_opened (hdelete : ∀ key, st.deleteFails key = false) :
    ∃ q, (opened rt st disk).Tracks rt q := by
  obtain ⟨q, hholds, hfind, -, hmarks⟩ := load_spec rt st disk
  have hheld : ∀ x ∈ q, (load rt st disk).1.find x.addr x.hash = some x :=
    fun x hx => hholds.find_eq_some.mpr ⟨hx, rfl⟩
  refine ⟨q, hholds, ?_, ?_, ?_, .inl rfl, ?_, ?_, ?_, ?_, ?_⟩
  · exact fun x hx => (h.current (hheld x hx)).1
  · exact fun x hx => (h.current (hheld x hx)).2.1
  · exact fun x hx => absurd hx List.not_mem_nil
  · exact fun w hw => absurd hw List.not_mem_nil
  · exact fun x hx => .inl (h.current (hheld x hx)).2.2
  · intro key value now d hlookup hunder hin
    rcases lookup_load_cases h.mixed hunder hlookup with hbefore | ⟨key', d', hold, -⟩
    · obtain ⟨hkey, hplain, -⟩ := h.entry key value now d hbefore hunder hin
      refine ⟨hkey, hplain, .inl ?_⟩
      rcases at_cases h.mixed st d.addr d.hash with ⟨hnone, -⟩ | ⟨d', -, hat, -⟩
      · exact absurd ⟨value, now, d, hbefore, hunder, hin, rfl⟩ (hnone key)
      · obtain ⟨x, hx, -⟩ := Option.map_eq_some_iff.mp hat
        obtain ⟨hmem, hpair⟩ := hholds.find_eq_some.mp hx
        exact ⟨x, hmem, hpair⟩
    · exact absurd hold h.no_olds
  · intro x hx hset
    obtain ⟨key, hlookup, hunder, hparse⟩ := (fetched_load h.mixed (hheld x hx)).mp hset
    obtain ⟨hkey, -⟩ := h.mark key _ hlookup hunder hparse
    refine .inl ⟨?_, fun y hy => absurd hy List.not_mem_nil⟩
    have hkept := marker_kept h.mixed hunder hparse (by rw [hheld x hx]; simp)
    rw [hkey] at hkept hlookup
    exact fun hnone => hlookup (hkept.symm.trans hnone)
  · intro key p hlookup hunder hparse
    change (load rt st disk).2.lookup key ≠ none at hlookup
    cases hfound : (load rt st disk).1.find p.1 p.2 with
    | none =>
      -- a marker without a copy was deleted
      refine absurd ((hmarks key).1 ⟨⟨hunder, fun p' hparse' => ?_⟩, hdelete key⟩) hlookup
      cases hparse.symm.trans hparse'
      rw [← hfind, hfound]
    | some x =>
      have hkept := marker_kept h.mixed hunder hparse (by rw [hfound]; simp)
      rw [hkept] at hlookup
      obtain ⟨hkey, hplain⟩ := h.mark key p hlookup hunder hparse
      obtain ⟨hx, hpair⟩ := hholds.find_eq_some.mp hfound
      exact ⟨hkey, hplain,
        .inl ⟨x, hx, hpair, (fetched_load h.mixed hfound).mpr ⟨key, hlookup, hunder, hparse⟩⟩⟩

end Opened

abbrev run (rt : StoreRuntime) (s : DiskStore) (es : List StoreEvent) : DiskStore :=
  Machine.run (DiskStore.step rt) s es

/-- Opened on a datastore that this version keeps, and run through any interleaving in which no
marker is written while a batch deletes it: whenever all calls have returned, a load gives what is
in memory. -/
theorem disk_reloads_of_undisturbed {rt : StoreRuntime} {st : Start} {disk : Disk}
    (hkept : Kept rt disk) (hdelete : ∀ key, st.deleteFails key = false) {es : List StoreEvent}
    (hes : Machine.Along (DiskStore.step rt) Undisturbed (opened rt st disk) es) :
    Machine.Throughout (DiskStore.step rt) (fun s => s.Returned → s.Reloads rt) (opened rt st disk)
      es := by
  have htracks := Machine.throughout_of_along (Q := fun s => ∃ q, s.Tracks rt q)
    (tracks_opened hkept hdelete) (fun s e ⟨_, h⟩ hgood => h.step hgood) hes
  exact htracks.imp fun s ⟨_, h⟩ hret => h.reloads hret

end DiskStore

/-! One envelope for one recipient, fetched and acknowledged; before the batch of the `Ack` commits,
it is stored and fetched again. -/
namespace LateDelete

open DiskStore MessageStore

def hash : Fixed 32 := Fixed.zero 32

def envelope : EncryptedEnvelope :=
  ⟨0, .zero 16, [], [], .zero 12, .zero 16, 0, 0, .zero 32, [], .zero 12, .zero 16, 0, [], .zero 12,
    .zero 16, 0, []⟩

def now : Time := Time.ofUnix 7

def copy (n : ℕ) : Copy := ⟨n, envelope, hash, Shadow.addr, now⟩

noncomputable def entry : Bytes := persisted idealStoreRuntime (copy 0).decoded

def storeAgain : List StoreEvent := [.enter (.store now Shadow.addr envelope hash), .put, .leave]

def fetch : List StoreEvent := [.enter (.markFetched Shadow.addr [hash]), .put, .leave]

def late : List StoreEvent :=
  (storeAgain ++ fetch) ++ ([.enter (.ack hash), .leave] ++ ((storeAgain ++ fetch) ++
    [.commit 0, .restore 0, .put, .leave]))

variable {s : DiskStore} {n : ℕ}

theorem run_store (hlock : s.lock = none) (hholds : s.mem.Holds []) :
    s.run idealStoreRuntime storeAgain =
      { s with
        mem := s.mem.add now Shadow.addr envelope hash
        disk := Datastore.put s.disk (copy 0).key entry } := by
  have hfind : s.mem.find Shadow.addr hash = none := by simp [hholds.find_eq_none]
  obtain ⟨mem, disk, lock, deleting, restoring⟩ := s
  cases hlock
  change mem.find Shadow.addr hash = none at hfind
  simp [storeAgain, DiskStore.run, Machine.run, DiskStore.step, callSection, hfind,
    MessageStore.call, MessageStore.store, entry, copy, StoredEnvelope.key, StoredEnvelope.decoded]

theorem run_fetch (hlock : s.lock = none) (hholds : s.mem.Holds [copy n])
    (hset : s.mem.fetched n = false) :
    s.run idealStoreRuntime fetch =
      { s with
        mem := s.mem.markFetched Shadow.addr [hash]
        disk := Datastore.put s.disk (copy 0).markKey [1] } := by
  have hfind : s.mem.find Shadow.addr hash = some (copy n) := hholds.find_eq_some.mpr ⟨by simp, rfl⟩
  obtain ⟨mem, disk, lock, deleting, restoring⟩ := s
  cases hlock
  change mem.find Shadow.addr hash = some (copy n) at hfind
  change mem.fetched (copy n).ptr = false at hset
  simp [fetch, DiskStore.run, Machine.run, DiskStore.step, callSection, markWrites, markWrite,
    hfind, hset, MessageStore.call]
  rfl

theorem run_ack (hlock : s.lock = none) (hholds : s.mem.Holds [copy n])
    (hset : s.mem.fetched n = true) :
    s.run idealStoreRuntime [.enter (.ack hash), .leave] =
      { s with mem := (s.mem.takeFetched hash).1, deleting := s.deleting ++ [[copy n]] } := by
  have hitems : s.mem.byHash.items hash = [copy n] := by
    rw [hholds.byHash.items_eq]
    rfl
  have htaken : (s.mem.takeFetched hash).2 = [copy n] := by
    unfold takeFetched
    dsimp only
    rw [hitems]
    exact List.filter_cons_of_pos hset
  obtain ⟨mem, disk, lock, deleting, restoring⟩ := s
  cases hlock
  change (mem.takeFetched hash).2 = [copy n] at htaken
  simp [DiskStore.run, Machine.run, DiskStore.step, callSection, htaken, MessageStore.call,
    MessageStore.ack]

theorem run_commit {m : ℕ} (hlock : s.lock = none) (hholds : s.mem.Holds [copy n])
    (hdeleting : s.deleting = [[copy m]]) (hrestoring : s.restoring = []) :
    s.run idealStoreRuntime [.commit 0, .restore 0, .put, .leave] =
      ⟨s.mem, Datastore.put (deleteAll s.disk (deletedKeys [copy 0])) (copy 0).key entry, none, [],
        []⟩ := by
  have hfind : s.mem.find Shadow.addr hash = some (copy n) := hholds.find_eq_some.mpr ⟨by simp, rfl⟩
  obtain ⟨mem, disk, lock, deleting, restoring⟩ := s
  cases hlock
  cases hdeleting
  cases hrestoring
  change mem.find (copy m).addr (copy m).hash = some (copy n) at hfind
  simp [DiskStore.run, Machine.run, DiskStore.step, restoreWrites, hfind]
  rfl

variable {m : MessageStore EncryptedEnvelope}

theorem holds_add (h : m.Holds []) :
    (m.add now Shadow.addr envelope hash).Holds [copy m.allocated] ∧
    (m.add now Shadow.addr envelope hash).fetched m.allocated = false :=
  ⟨h.add now envelope (by simp), Function.update_self _ _ _⟩

theorem holds_fetch (h : m.Holds [copy n]) :
    (m.markFetched Shadow.addr [hash]).Holds [copy n] ∧
    (m.markFetched Shadow.addr [hash]).allocated = m.allocated ∧
    (m.markFetched Shadow.addr [hash]).fetched n = true := by
  obtain ⟨hholds, hallocated, hflags⟩ := h.markFetched Shadow.addr [hash]
  exact ⟨hholds, hallocated, (hflags (copy n) (by simp)).mpr (.inr ⟨rfl, by simp [copy]⟩)⟩

theorem holds_ack (h : m.Holds [copy n]) (hset : m.fetched n = true) :
    (m.takeFetched hash).1.Holds [] ∧ (m.takeFetched hash).1.allocated = m.allocated := by
  have hholds := h.takeFetched hash
  rw [List.filter_cons_of_neg (by simp [copy, hset])] at hholds
  exact ⟨hholds, (fetched_unindexAll m _).2⟩

noncomputable def fresh : DiskStore := opened idealStoreRuntime .faultless ∅

noncomputable def marked (disk : Disk) : Disk :=
  Datastore.put (Datastore.put disk (copy 0).key entry) (copy 0).markKey [1]

theorem run_round (hlock : s.lock = none) (hholds : s.mem.Holds []) :
    ∃ mem, s.run idealStoreRuntime (storeAgain ++ fetch) =
      { s with mem := mem, disk := marked s.disk } ∧
      mem.Holds [copy s.mem.allocated] ∧ mem.fetched s.mem.allocated = true := by
  obtain ⟨hadd, hunset⟩ := holds_add hholds
  obtain ⟨hfetch, -, hset⟩ := holds_fetch hadd
  refine ⟨_, ?_, hfetch, hset⟩
  rw [DiskStore.run, Machine.run_append]
  change Machine.run _ (s.run idealStoreRuntime storeAgain) _ = _
  rw [run_store hlock hholds]
  exact run_fetch hlock hadd hunset

theorem run_late : ∃ mem n, mem.Holds [copy n] ∧ mem.fetched n = true ∧
    fresh.run idealStoreRuntime late = ⟨mem, Datastore.put
      (deleteAll (marked (marked ∅)) (deletedKeys [copy 0])) (copy 0).key entry, none, [], []⟩ := by
  obtain ⟨mem₁, hrun₁, hholds₁, hset₁⟩ := run_round (s := fresh) rfl holds_empty
  obtain ⟨hholds₂, -⟩ := holds_ack hholds₁ hset₁
  obtain ⟨mem₃, hrun₃, hholds₃, hset₃⟩ := run_round
    (s := ⟨(mem₁.takeFetched hash).1, marked ∅, none, [[copy 0]], []⟩) rfl hholds₂
  refine ⟨mem₃, _, hholds₃, hset₃, ?_⟩
  rw [DiskStore.run, late, Machine.run_append, Machine.run_append, Machine.run_append]
  rw [show Machine.run (DiskStore.step idealStoreRuntime) fresh (storeAgain ++ fetch) =
    _ from hrun₁]
  rw [show Machine.run (DiskStore.step idealStoreRuntime) _ [.enter (.ack hash), .leave] =
    ⟨(mem₁.takeFetched hash).1, marked ∅, none, [[copy 0]], []⟩ from run_ack rfl hholds₁ hset₁]
  rw [show Machine.run (DiskStore.step idealStoreRuntime) _ (storeAgain ++ fetch) = _ from hrun₃]
  exact run_commit rfl hholds₃ rfl rfl

theorem undisturbed_store :
    Machine.Along (DiskStore.step idealStoreRuntime) Undisturbed fresh storeAgain := by
  refine ⟨⟨Shadow.plain_addr, by decide⟩, ?_, trivial, trivial⟩
  intro w _ y hy
  cases hy

theorem undisturbed_round :
    Machine.Along (DiskStore.step idealStoreRuntime) Undisturbed fresh (storeAgain ++ fetch) := by
  rw [Machine.along_append, show Machine.run (DiskStore.step idealStoreRuntime) fresh storeAgain =
    _ from
    run_store (s := fresh) rfl holds_empty]
  refine ⟨undisturbed_store, trivial, ?_, trivial, trivial⟩
  intro w _ y hy
  cases hy

theorem kept_empty : Kept idealStoreRuntime ∅ := by
  refine ⟨?_, ?_⟩
  · intro key value now d hlookup
    cases hlookup
  · exact fun key p hlookup => absurd rfl hlookup

theorem store_reloads :
    (fresh.run idealStoreRuntime (storeAgain ++ fetch)).Returned ∧
    (fresh.run idealStoreRuntime (storeAgain ++ fetch)).Reloads idealStoreRuntime := by
  have hreloads := (disk_reloads_of_undisturbed kept_empty (fun _ => rfl) undisturbed_round).last
  obtain ⟨mem, hrun, -⟩ := run_round (s := fresh) rfl holds_empty
  have hret : (fresh.run idealStoreRuntime (storeAgain ++ fetch)).Returned := by
    rw [hrun]
    exact ⟨rfl, rfl, rfl⟩
  exact ⟨hret, hreloads hret⟩

theorem eq_empty_of_lookup {d : Disk} (h : ∀ key, d.lookup key = none) : d = ∅ := by
  apply AList.ext
  cases hentries : d.entries with
  | nil => rfl
  | cons e es =>
    have hmem : e ∈ d.entries := by simp [hentries]
    have hlookup := AList.mem_lookup_iff.mpr hmem
    rw [Option.mem_def, h] at hlookup
    cases hlookup

theorem served_of_holds (h : m.Holds [copy n]) :
    m.served Shadow.addr hash = some (envelope.toProto, now.wholeSecond, m.fetched n) := by
  have hfind : m.find Shadow.addr hash = some (copy n) := h.find_eq_some.mpr ⟨by simp, rfl⟩
  rw [served, hfind]
  rfl

/-- The batch takes the marker of the second fetch with it, and only the entry is written back: at
the next start the copy is there, and was never fetched. -/
theorem mark_lost_by_late_delete :
    (fresh.run idealStoreRuntime late).Returned ∧
    (fresh.run idealStoreRuntime late).mem.served Shadow.addr hash =
      some (envelope.toProto, now.wholeSecond, true) ∧
    (∀ st, (load idealStoreRuntime st (fresh.run idealStoreRuntime late).disk).1.served Shadow.addr
      hash =
      some (envelope.toProto, now.wholeSecond, false)) ∧
    ¬ (fresh.run idealStoreRuntime late).Reloads idealStoreRuntime := by
  obtain ⟨mem, n, hholds, hset, hrun⟩ := run_late
  have hswept : deleteAll (marked (marked ∅)) (deletedKeys [copy 0]) = ∅ := by
    apply eq_empty_of_lookup
    intro key
    rw [lookup_deleteAll]
    split
    · rfl
    · next hkey =>
      rw [mem_deletedKeys] at hkey
      have hne : key ≠ (copy 0).key ∧ key ≠ (copy 0).markKey := by simpa using hkey
      simp only [marked, lookup_put, if_neg hne.1, if_neg hne.2]
      rfl
  rw [hswept] at hrun
  have hmem : (fresh.run idealStoreRuntime late).mem.served Shadow.addr hash =
      some (envelope.toProto, now.wholeSecond, true) := by
    rw [hrun, served_of_holds hholds, hset]
  -- the disk is that of a store in which the copy was never fetched
  have hload : ∀ st, (load idealStoreRuntime st (fresh.run idealStoreRuntime late).disk).1.served
      Shadow.addr
      hash = some (envelope.toProto, now.wholeSecond, false) := by
    intro st
    have htracks := Machine.throughout_of_along (Q := fun s => ∃ q, s.Tracks idealStoreRuntime q)
      (tracks_opened kept_empty fun _ => rfl) (fun s e ⟨_, h⟩ hgood => h.step hgood)
        undisturbed_store
    obtain ⟨q, hstored⟩ := htracks.last
    rw [show Machine.run (DiskStore.step idealStoreRuntime) fresh storeAgain = _ from
      run_store (s := fresh) rfl holds_empty] at hstored
    obtain ⟨hadd, hunset⟩ := holds_add holds_empty
    have hserved := hstored.reloads ⟨rfl, rfl, rfl⟩ st Shadow.addr hash
    change _ = (MessageStore.empty.add now Shadow.addr envelope hash).served Shadow.addr
      hash at hserved
    rw [served_of_holds hadd, hunset] at hserved
    rw [hrun]
    exact hserved
  refine ⟨?_, hmem, hload, fun hreloads => ?_⟩
  · rw [hrun]
    exact ⟨rfl, rfl, rfl⟩
  · have hsame := hreloads .faultless Shadow.addr hash
    rw [hmem, hload] at hsame
    cases hsame

end LateDelete

end Dmcn
