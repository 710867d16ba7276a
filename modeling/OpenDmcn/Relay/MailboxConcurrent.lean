import OpenDmcn.Relay.Mailbox

/-! Concurrent calls of the mailbox (`mailbox.go`). A `Store` looks the hash up in the index and
then commits its batch, a `Delete` reads the index and then commits its own; nothing holds the two
steps together. -/

namespace Dmcn.Mailbox

open Go Datastore

inductive Batch where
  | store (m : Mail)
  | delete (rx hash : Fixed 32) (hKeyBytes : Bytes)

structure Shared where
  disk : Disk
  /-- The batches of the calls that have not returned. -/
  pending : List Batch

/-- One atomic step of some call: its look into the index, after which it returns or has a batch to
commit, or the commit. -/
inductive MailboxEvent where
  | check (c : MailboxCall)
  | commit (i : ℕ)

def check (disk : Disk) : MailboxCall → Option Batch
  | .store rx hash env storedAt =>
    if env.isSplit = false then none
    else if (disk.lookup (indexKey (Hex.encode rx.val) (Hex.encode hash.val))).isSome then none
    else some (.store ⟨rx, hash, env, storedAt⟩)
  | .delete rx hash =>
    (disk.lookup (indexKey (Hex.encode rx.val) (Hex.encode hash.val))).map fun hKeyBytes =>
      .delete rx hash hKeyBytes

def commit (rt : MailboxRuntime) (disk : Disk) : Batch → Disk
  | .store m => putAll disk (storeBatch rt (Hex.encode m.rx.val) m.hash m.env m.storedAt)
  | .delete rx hash hKeyBytes => deleteAll disk (deleteBatch (Hex.encode rx.val) hash hKeyBytes)

theorem call_eq_check_commit (rt : MailboxRuntime) (disk : Disk) (c : MailboxCall) :
    call rt disk c = (check disk c).elim disk (commit rt disk) := by
  cases c with
  | store rx hash env storedAt =>
    unfold call store check
    dsimp only
    split
    · rfl
    · split
      · rfl
      · rfl
  | delete rx hash =>
    unfold call delete check
    dsimp only
    cases disk.lookup (indexKey (Hex.encode rx.val) (Hex.encode hash.val)) with
    | none => rfl
    | some hKeyBytes => rfl

namespace Shared

def step (rt : MailboxRuntime) (s : Shared) : MailboxEvent → Shared
  | .check c => { s with pending := s.pending ++ (check s.disk c).toList }
  | .commit i =>
    match s.pending[i]? with
    | some b => ⟨commit rt s.disk b, s.pending.eraseIdx i⟩
    | none => s

/-- What the index holds for the pair of a batch is still what its call saw: for a `Store` nothing,
or the very header it writes; for a `Delete` the header it deletes, or nothing any more. -/
def Undisturbed (disk : Disk) : Batch → Prop
  | .store m => ∀ value, disk.lookup (indexKey (Hex.encode m.rx.val) (Hex.encode m.hash.val)) =
    some value →
      value = utf8 (text m.header)
  | .delete rx hash hKeyBytes => ∀ value,
      disk.lookup (indexKey (Hex.encode rx.val) (Hex.encode hash.val)) = some value →
        value = hKeyBytes

def Unraced (s : Shared) : MailboxEvent → Prop
  | .check _ => True
  | .commit i => ∀ b ∈ s.pending[i]?, Undisturbed s.disk b

/-- At most one header for each recipient and hash; and once all calls have returned, a `Delete`
leaves nothing of its hash. -/
def Idempotent (s : Shared) : Prop :=
  ∀ rx hash,
    (∀ key key', IsHeader rx hash key → IsHeader rx hash key' → s.disk.lookup key ≠ none →
      s.disk.lookup key' ≠ none → key = key') ∧
    (s.pending = [] → ∀ key, KeyOf rx hash key →
      (delete s.disk (Hex.encode rx.val) hash).lookup key = none)

/-- What holds between any two steps: the disk holds some messages, each once, and a `Delete` on its
way names a header of its own pair. -/
structure Sound (rt : MailboxRuntime) (base : Disk) (s : Shared) : Prop where
  holds : ∃ q, Holds rt base s.disk q
  named : ∀ rx hash hKeyBytes, Batch.delete rx hash hKeyBytes ∈ s.pending →
    ∃ m : Mail, m.pair = (rx, hash) ∧ hKeyBytes = utf8 (text m.header)

section Step

variable {rt : MailboxRuntime} {base : Disk} (hbase : Foreign base) {s : Shared}

theorem header_of_text {m m' : Mail} (h : utf8 (text m.header) = utf8 (text m'.header)) :
    m.header = m'.header := by
  have htext := congrArg ofUtf8 h
  rw [ofUtf8_utf8, ofUtf8_utf8] at htext
  rw [← Mail.newKey_header m, htext, Mail.newKey_header m']

include hbase

theorem Sound.check (h : Sound rt base s) (c : MailboxCall) : Sound rt base
    (s.step rt (.check c)) := by
  obtain ⟨q, hq⟩ := h.holds
  refine ⟨⟨q, hq⟩, fun rx hash hKeyBytes hmem => ?_⟩
  rcases List.mem_append.mp hmem with hmem | hmem
  · exact h.named rx hash hKeyBytes hmem
  · rw [Option.mem_toList] at hmem
    cases c with
    | store rx' hash' env storedAt =>
      unfold Mailbox.check at hmem
      dsimp only at hmem
      split at hmem
      · cases hmem
      · split at hmem
        · cases hmem
        · cases hmem
    | delete rx' hash' =>
      obtain ⟨value, hvalue, hbatch⟩ := Option.map_eq_some_iff.mp hmem
      cases hbatch
      obtain ⟨m, -, hpair, hname⟩ := (hq.lookup_index hbase).mp hvalue
      exact ⟨m, hpair, hname⟩

theorem Sound.commit (h : Sound rt base s) {b : Batch} (hb : b ∈ s.pending)
    (hgood : Undisturbed s.disk b) :
    ∃ q, Holds rt base (commit rt s.disk b) q := by
  obtain ⟨q, hq⟩ := h.holds
  cases b with
  | store m =>
    refine ⟨replace q m, ?_⟩
    have hput := hq.putAll hbase (m := m) fun m' hm' hpair => ?_
    · rw [← Mail.storeBatch_eq] at hput
      exact hput
    · have hindex := (hq.lookup_index hbase).mpr ⟨m', hm', hpair, rfl⟩
      exact header_of_text (hgood _ hindex)
  | delete rx hash hKeyBytes =>
    obtain ⟨m, hpair, rfl⟩ := h.named rx hash hKeyBytes hb
    cases hpair
    refine ⟨q.filter fun m' => decide (m'.pair ≠ m.pair), ?_⟩
    have hdelete := hq.deleteAll hbase (m := m) fun m' hm' hpair => ?_
    · rw [← Mail.deleteBatch_eq] at hdelete
      exact hdelete
    · have hindex := (hq.lookup_index hbase).mpr ⟨m', hm', hpair, rfl⟩
      exact header_of_text (hgood _ hindex)

theorem Sound.step (h : Sound rt base s) {e : MailboxEvent} (hgood : s.Unraced e) :
    Sound rt base (s.step rt e) := by
  cases e with
  | check c => exact h.check hbase c
  | commit i =>
    unfold Shared.step
    dsimp only
    cases hi : s.pending[i]? with
    | none => exact h
    | some b =>
      have hb : b ∈ s.pending := List.mem_of_getElem? hi
      refine ⟨h.commit hbase hb (hgood b (by rw [hi]; rfl)), fun rx hash hKeyBytes hmem => ?_⟩
      exact h.named rx hash hKeyBytes (List.mem_of_mem_eraseIdx hmem)

theorem Sound.idempotent (h : Sound rt base s) : s.Idempotent := by
  obtain ⟨q, hq⟩ := h.holds
  intro rx hash
  refine ⟨fun key key' hkey hkey' hthere hthere' => ?_, fun _ key =>
    (hq.lookup_delete hbase rx hash key).1⟩
  obtain ⟨m, hm, hpair, rfl⟩ := hq.header_eq hbase hkey hthere
  obtain ⟨m', hm', hpair', rfl⟩ := hq.header_eq hbase hkey' hthere'
  rw [hq.eq_of_pair hm hm' (hpair.trans hpair'.symm)]

end Step

/-- In any interleaving in which each commit finds the index as its call saw it, a hash never has
two headers, and once all calls have returned a `Delete` leaves nothing of it. -/
theorem mailbox_idempotent_of_unraced {rt : MailboxRuntime} {base : Disk} (hbase : Foreign base)
    {es : List MailboxEvent} (hes : Machine.Along (Shared.step rt) Unraced ⟨base, []⟩ es) :
    Machine.Throughout (Shared.step rt) Idempotent ⟨base, []⟩ es := by
  have hfirst : Sound rt base ⟨base, []⟩ :=
    ⟨⟨[], holds_base rt base⟩, fun _ _ _ hmem => absurd hmem List.not_mem_nil⟩
  have hsound :=
    Machine.throughout_of_along (Q := Sound rt base) hfirst (fun _ _ h => h.step hbase) hes
  exact hsound.imp fun _ h => h.idempotent hbase

end Shared

/-! A `Store` of one message and its retry, a second later. -/
namespace Retried

open Shared

def mail (u : Int64) : Mail := ⟨.zero 32, .zero 32, smallEnvelope, Time.ofUnix u⟩

def attempt (u : Int64) : MailboxCall := .store (.zero 32) (.zero 32) smallEnvelope (Time.ofUnix u)

theorem delete_of_indexed {disk : Disk} {rxHex : String} {hash : Fixed 32} {hKeyBytes : Bytes}
    (h : disk.lookup (indexKey rxHex (Hex.encode hash.val)) = some hKeyBytes) :
    delete disk rxHex hash = deleteAll disk (deleteBatch rxHex hash hKeyBytes) := by
  unfold delete
  rw [h]

theorem rxHex_mail (u : Int64) : (mail u).rxHex = Hex.encode (Fixed.zero 32).val := rfl

theorem hash_mail (u : Int64) : (mail u).hash = .zero 32 := rfl

theorem header_ne : (mail 7).header ≠ (mail 8).header := by decide

theorem commit_attempt (disk : Disk) (u : Int64) :
    commit idealRuntime disk (.store (mail u)) = putAll disk ((mail u).writes idealRuntime) := by
  rw [← Mail.storeBatch_eq]
  rfl

def race : List MailboxEvent := [.check (attempt 7), .check (attempt 8), .commit 0, .commit 0]

theorem run_race : Machine.run (Shared.step idealRuntime) ⟨∅, []⟩ race =
    ⟨putAll (putAll ∅ ((mail 7).writes idealRuntime)) ((mail 8).writes idealRuntime), []⟩ := by
  have hrun : Machine.run (Shared.step idealRuntime) ⟨∅, []⟩ race =
      ⟨commit idealRuntime (commit idealRuntime ∅ (.store (mail 7))) (.store (mail 8)), []⟩ := rfl
  rw [hrun, commit_attempt, commit_attempt]

/-- Both headers are there when both calls have returned, and a `Delete` takes only one of them. -/
theorem two_headers_after_retry :
    (Machine.run (Shared.step idealRuntime) ⟨∅, []⟩ race).pending = [] ∧
    (mail 7).header ≠ (mail 8).header ∧
    (Machine.run (Shared.step idealRuntime) ⟨∅, []⟩ race).disk.lookup (mail 7).header ≠ none ∧
    (Machine.run (Shared.step idealRuntime) ⟨∅, []⟩ race).disk.lookup (mail 8).header ≠ none ∧
    (delete (Machine.run (Shared.step idealRuntime) ⟨∅, []⟩ race).disk
      (mail 7).rxHex (mail 7).hash).lookup (mail 7).header ≠ none ∧
    ¬ Machine.Throughout (Shared.step idealRuntime) Idempotent ⟨∅, []⟩ race := by
  have hnodup : ∀ u, (((mail u).writes idealRuntime).map Prod.fst).Nodup :=
    fun u => (mail u).nodup_keys
  have hlater : (mail 7).header ∉ (mail 8).keys := by
    intro hmem
    simp only [Mail.keys, List.mem_cons, List.not_mem_nil, or_false] at hmem
    rcases hmem with hmem | hmem | hmem
    · exact header_ne hmem
    · simp [Mail.header, Mail.body] at hmem
    · simp [Mail.header, Mail.index] at hmem
  have hfirst :
      (putAll (putAll ∅ ((mail 7).writes idealRuntime)) ((mail 8).writes idealRuntime)).lookup
      (mail 7).header = some (filedHeader idealRuntime (mail 7)).2 := by
    rw [lookup_putAll_of_notMem
      (show (mail 7).header ∉ ((mail 8).writes idealRuntime).map Prod.fst from hlater)]
    exact lookup_putAll_of_mem (hnodup 7) (mem_writes_header (mail 7))
  have hsecond :
      (putAll (putAll ∅ ((mail 7).writes idealRuntime)) ((mail 8).writes idealRuntime)).lookup
      (mail 8).header = some (filedHeader idealRuntime (mail 8)).2 :=
    lookup_putAll_of_mem (hnodup 8) (mem_writes_header (mail 8))
  have hindex :
      (putAll (putAll ∅ ((mail 7).writes idealRuntime)) ((mail 8).writes idealRuntime)).lookup
      (indexKey (mail 8).rxHex (Hex.encode (mail 8).hash.val)) =
        some (utf8 (text (mail 8).header)) := by
    have hmem : ((mail 8).index, utf8 (text (mail 8).header)) ∈ (mail 8).writes idealRuntime := by
      simp [Mail.writes]
    have hlookup :=
      lookup_putAll_of_mem (d := putAll ∅ ((mail 7).writes idealRuntime)) (hnodup 8) hmem
    rw [Mail.indexKey_eq]
    dsimp only at hlookup
    rw [hlookup]
  rw [run_race]
  refine ⟨rfl, header_ne, ?_, ?_, ?_, fun hthroughout => ?_⟩
  · rw [hfirst]
    exact Option.some_ne_none _
  · rw [hsecond]
    exact Option.some_ne_none _
  · rw [rxHex_mail 7, ← rxHex_mail 8, hash_mail 7, ← hash_mail 8]
    rw [delete_of_indexed hindex, Mail.deleteBatch_eq, lookup_deleteAll, if_neg hlater, hfirst]
    exact Option.some_ne_none _
  · have hlast := hthroughout.last
    rw [run_race] at hlast
    refine header_ne ((hlast (.zero 32) (.zero 32)).1 _ _ (Mail.isHeader (mail 7))
      (Mail.isHeader (mail 8)) ?_ ?_)
    · rw [hfirst]
      exact Option.some_ne_none _
    · rw [hsecond]
      exact Option.some_ne_none _

/-- The retry looks after the first call has committed. -/
theorem retry_after_commit :
    Machine.Throughout (Shared.step idealRuntime) Idempotent ⟨∅, []⟩
      [.check (attempt 7), .commit 0, .check (attempt 8)] := by
  refine mailbox_idempotent_of_unraced (fun _ _ => rfl) ⟨trivial, fun b hb => ?_, trivial, trivial⟩
  have hbatch : b = .store (mail 7) := (Option.some.inj hb).symm
  rw [hbatch]
  intro value hvalue
  cases hvalue

end Retried

end Dmcn.Mailbox
