import Mathlib.Data.List.AList
import OpenDmcn.Lib.Date
import OpenDmcn.Lib.Run
import OpenDmcn.Lib.Utf16

/-! The rows of the mail list that are kept on a device (`api/previewCache.ts`), in buckets of which
a save writes those that have changed. Sealing is ideal: what is stored under a slot opens there. -/

namespace Dmcn.PreviewCache

variable {P V W F : Type}

/-- The objects a row may point to, and what they say. Reading a row makes an object that says what
was stored; which object it is may depend on the time of the reading and on the row. -/
structure Objects (P V : Type) where
  value : P → V
  parse : ℕ → Js.Text → V → P
  value_parse : ∀ n hash v, value (parse n hash v) = v

structure CachedRow (P W : Type) where
  preview : P
  version : Option W
  raw : Option String

abbrev Rows (P W : Type) := AList fun _ : Js.Text => CachedRow P W

abbrev Stored (V W : Type) := List (Js.Text × V × Option W)

structure Store (V W F : Type) where
  marker : Bool
  position : Option F
  buckets : AList fun _ : List Char => Stored V W
  entries : AList fun _ : Js.Text => String

def Store.empty : Store V W F := ⟨false, none, ∅, ∅⟩

structure Memory (P W : Type) where
  saved : Rows P W
  withEntry : List Js.Text
  full : Bool

structure Job (P W F : Type) where
  rows : Rows P W
  position : Option (Option F)

def bucketId (n : ℕ) : List Char := Js.padStart (Nat.toDigits 16 n) 2 '0'

def bucketOf (hash : Js.Text) : List Char :=
  let h := hash.foldl (fun h c => (h ^^^ c.toUInt32) * 0x01000193) 0x811c9dc5
  bucketId ((h ^^^ (h >>> 8) ^^^ (h >>> 16) ^^^ (h >>> 24)) &&& 0xff).toNat

section Maps

variable {α β : Type} [DecidableEq α]

def putAll (s : AList fun _ : α => β) (puts : List (α × β)) : AList fun _ : α => β :=
  puts.foldl (fun s put => s.insert put.1 put.2) s

def eraseAll (s : AList fun _ : α => β) (keys : List α) : AList fun _ : α => β :=
  keys.foldl (fun s key => s.erase key) s

theorem lookup_eraseAll (s : AList fun _ : α => β) (keys : List α) (a : α) :
    (eraseAll s keys).lookup a = if a ∈ keys then none else s.lookup a := by
  unfold eraseAll
  induction keys generalizing s with
  | nil => rfl
  | cons key keys ih =>
    rw [List.foldl_cons, ih]
    by_cases hkey : a = key
    · subst hkey
      rw [if_pos List.mem_cons_self, AList.lookup_erase, ite_self]
    · rw [AList.lookup_erase_ne hkey]
      simp only [List.mem_cons, hkey, false_or]

theorem lookup_putAll_of_notMem {s : AList fun _ : α => β} {puts : List (α × β)} {a : α}
    (h : a ∉ puts.map Prod.fst) :
    (putAll s puts).lookup a = s.lookup a := by
  unfold putAll
  induction puts generalizing s with
  | nil => rfl
  | cons put puts ih =>
    rw [List.map_cons, List.mem_cons, not_or] at h
    rw [List.foldl_cons, ih h.2, AList.lookup_insert_ne h.1]

theorem lookup_putAll {s : AList fun _ : α => β} {puts : List (α × β)}
    (hnodup : (puts.map Prod.fst).Nodup) {put : α × β} (h : put ∈ puts) :
    (putAll s puts).lookup put.1 = some put.2 := by
  induction puts generalizing s with
  | nil => cases h
  | cons first puts ih =>
    rw [List.map_cons, List.nodup_cons] at hnodup
    have hcons : putAll s (first :: puts) = putAll (s.insert first.1 first.2) puts := rfl
    rcases List.mem_cons.mp h with rfl | h
    · rw [hcons, lookup_putAll_of_notMem hnodup.1, AList.lookup_insert]
    · rw [hcons, ih hnodup.2 h]

end Maps

section Load

variable (O : Objects P V)

def unpack (n : ℕ) (stored : Stored V W) : Rows P W :=
  stored.foldl (fun rows r => rows.insert r.1 ⟨O.parse n r.1 r.2.1, r.2.2, none⟩) ∅

def keep (store : Store V W F) : Store V W F :=
  if store.marker then store else { Store.empty with marker := true }

structure Loaded (P V W F : Type) where
  store : Store V W F
  memory : Memory P W
  position : Option F

def load (n : ℕ) (store : Store V W F) : Loaded P V W F :=
  let store := keep store
  { store := store
    memory := ⟨unpack O n (store.buckets.entries.flatMap fun slot => slot.2), store.entries.keys,
      false⟩
    position := store.position }

end Load

section Write

variable (O : Objects P V)

def CachedRow.entry (row : CachedRow P W) : Option String :=
  row.raw.filter fun raw => decide (raw ≠ "")

def CachedRow.shown (row : CachedRow P W) : V × Option W := (O.value row.preview, row.version)

variable [DecidableEq P] [DecidableEq W]

def changed (was : Option (CachedRow P W)) (row : CachedRow P W) : Bool :=
  match was with
  | none => true
  | some was => decide (was.preview ≠ row.preview ∨ was.version ≠ row.version)

def dirty (m : Memory P W) (rows : Rows P W) : List (List Char) :=
  ((if m.full then (List.range 256).map bucketId else []) ++
    ((rows.entries.filter fun r => changed (m.saved.lookup r.1) r.2).map fun r => bucketOf r.1) ++
    ((m.saved.keys.filter fun hash => decide (hash ∉ rows)).map bucketOf)).dedup

def content (rows : Rows P W) (id : List Char) : Stored V W :=
  (rows.entries.filter fun r => decide (bucketOf r.1 = id)).map fun r => (r.1, r.2.shown O)

def written (m : Memory P W) (rows : Rows P W) : List (Js.Text × String) :=
  rows.entries.filterMap fun r => if r.1 ∈ m.withEntry then none else r.2.entry.map fun raw =>
    (r.1, raw)

structure Batch (V W F : Type) where
  buckets : List (List Char × Stored V W)
  emptied : List (List Char)
  entries : List (Js.Text × String)
  dropped : List Js.Text
  position : Option (Option F)

def plan (m : Memory P W) (job : Job P W F) : Option (Batch V W F) :=
  let ids := dirty m job.rows
  if ids = [] ∧ written m job.rows = [] ∧ job.position = none then none
  else
    let buckets := ids.map fun id => (id, content O job.rows id)
    some {
      buckets := buckets.filter fun b => decide (b.2 ≠ [])
      emptied := (buckets.filter fun b => decide (b.2 = [])).map Prod.fst
      entries := written m job.rows
      dropped := m.withEntry.filter fun hash => decide (hash ∉ job.rows)
      position := job.position }

def Store.put (store : Store V W F) (b : Batch V W F) : Store V W F :=
  { store with
    buckets := eraseAll (putAll store.buckets b.buckets) b.emptied
    entries := eraseAll (putAll store.entries b.entries) b.dropped
    position := b.position.getD store.position }

def Memory.after (m : Memory P W) (job : Job P W F) (b : Batch V W F) : Memory P W :=
  { full := false
    saved := job.rows
    withEntry := (m.withEntry ++ b.entries.map Prod.fst).filter fun hash =>
      decide (hash ∉ b.dropped) }

end Write

section Runs

variable (O : Objects P V)

inductive Opening where
  | opened
  | unread
  | wiped
  deriving DecidableEq

inductive Event (P W F : Type) where
  | openCache (opening : Opening)
  | save (job : Job P W F)
  | rewriteAll
  | begin
  | finish (ok : Bool)

/-- The store, the cache that writes it, and the saves that have succeeded, the last one first. -/
structure State (P V W F : Type) where
  store : Store V W F
  memory : Option (Memory P W)
  queue : List (Job P W F)
  active : Option (Job P W F × Batch V W F)
  loads : ℕ
  saves : List (Job P W F)

def start (store : Store V W F) : State P V W F :=
  ⟨{ store with marker := false }, none, [], none, 0, []⟩

variable [DecidableEq P] [DecidableEq W] in
def step (s : State P V W F) : Event P W F → State P V W F
  | .openCache opening =>
    let closed := { s with memory := none, queue := [], active := none, loads := s.loads + 1 }
    match opening with
    | .opened =>
      let loaded := load O s.loads s.store
      { closed with store := loaded.store, memory := some loaded.memory }
    | .unread => closed
    | .wiped => if s.store.marker then closed else { closed with store := Store.empty }
  | .save job => if s.memory.isSome then { s with queue := s.queue ++ [job] } else s
  | .rewriteAll => { s with memory := s.memory.map fun m => { m with full := true } }
  | .begin =>
    match s.memory, s.active, s.queue with
    | some m, none, job :: queue =>
      match plan O m job with
      | none => { s with queue := queue, saves := job :: s.saves }
      | some b => { s with queue := queue, active := some (job, b) }
    | _, _, _ => s
  | .finish ok =>
    match s.memory, s.active with
    | some m, some (job, b) =>
      if ok then
        { s with store := s.store.put b, memory := some (m.after job b), active := none, saves :=
          job :: s.saves }
      else { s with active := none }
    | _, _ => s

def lastRows : List (Job P W F) → Js.Text → Option (V × Option W)
  | [], _ => none
  | job :: _, hash => (job.rows.lookup hash).map fun row => row.shown O

def lastPosition : List (Job P W F) → Option F
  | [] => none
  | job :: saves => job.position.getD (lastPosition saves)

def keptRaw : List (Job P W F) → Js.Text → Option String
  | [], _ => none
  | job :: saves, hash => (job.rows.lookup hash).bind fun row => (keptRaw saves hash).or row.entry

end Runs

section Sound

variable {O : Objects P V}

theorem mem_content {rows : Rows P W} {id : List Char} {hash : Js.Text} {x : V × Option W} :
    (hash, x) ∈ content O rows id ↔ bucketOf hash = id ∧ (rows.lookup hash).map (·.shown O) =
      some x := by
  unfold content
  rw [List.mem_map]
  constructor
  · rintro ⟨r, hr, hpair⟩
    obtain ⟨hmem, hid⟩ := List.mem_filter.mp hr
    cases hpair
    have hlookup : rows.lookup r.1 = some r.2 := AList.mem_lookup_iff.mpr hmem
    exact ⟨of_decide_eq_true hid, by rw [hlookup]; rfl⟩
  · rintro ⟨rfl, hx⟩
    obtain ⟨row, hrow, rfl⟩ := Option.map_eq_some_iff.mp hx
    exact ⟨⟨hash, row⟩, List.mem_filter.mpr ⟨AList.mem_lookup_iff.mp hrow, decide_eq_true rfl⟩, rfl⟩

structure Level (O : Objects P V) (store : Store V W F) (saves : List (Job P W F)) : Prop where
  rows : ∀ hash x, (∃ l, store.buckets.lookup (bucketOf hash) = some l ∧ (hash, x) ∈ l) ↔
    lastRows O saves hash = some x
  own : ∀ id l, store.buckets.lookup id = some l → ∀ r ∈ l, bucketOf r.1 = id
  position : store.position = lastPosition saves
  entries : ∀ hash, store.entries.lookup hash = keptRaw saves hash

structure Recalls (O : Objects P V) (m : Memory P W) (saves : List (Job P W F)) : Prop where
  saved : ∀ hash, (m.saved.lookup hash).map (·.shown O) = lastRows O saves hash
  entry : ∀ hash, hash ∈ m.withEntry ↔ (keptRaw saves hash).isSome = true

variable {saves : List (Job P W F)}

theorem lastRows_of_keptRaw {hash : Js.Text} (h : lastRows O saves hash = none) :
    keptRaw saves hash = none := by
  cases saves with
  | nil => rfl
  | cons job saves =>
    have hnone : job.rows.lookup hash = none := Option.map_eq_none_iff.mp h
    rw [keptRaw, hnone]
    rfl

variable {m : Memory P W}

theorem mem_written {rows : Rows P W} {hash : Js.Text} {raw : String} :
    (hash, raw) ∈ written m rows ↔ hash ∉ m.withEntry ∧ (rows.lookup hash).bind (·.entry) =
      some raw := by
  unfold written
  rw [List.mem_filterMap]
  constructor
  · rintro ⟨r, hr, hpair⟩
    split at hpair
    · cases hpair
    · next hnew =>
      obtain ⟨raw', hraw, hpair⟩ := Option.map_eq_some_iff.mp hpair
      cases hpair
      have hlookup : rows.lookup r.1 = some r.2 := AList.mem_lookup_iff.mpr hr
      exact ⟨hnew, by rw [hlookup, Option.bind_some, hraw]⟩
  · rintro ⟨hnew, hraw⟩
    obtain ⟨row, hrow, hentry⟩ := Option.bind_eq_some_iff.mp hraw
    refine ⟨⟨hash, row⟩, AList.mem_lookup_iff.mp hrow, ?_⟩
    rw [if_neg hnew, hentry]
    rfl

theorem nodup_written (m : Memory P W) (rows : Rows P W) :
    ((written m rows).map Prod.fst).Nodup := by
  have hkeys : ∀ l : List (Sigma fun _ : Js.Text => CachedRow P W),
      ((l.filterMap fun r => if r.1 ∈ m.withEntry then none else r.2.entry.map fun raw =>
        (r.1, raw)).map
        Prod.fst).Sublist (l.map Sigma.fst) := by
    intro l
    induction l with
    | nil => exact .slnil
    | cons r l ih =>
      rw [List.filterMap_cons, List.map_cons]
      split
      · exact ih.cons r.1
      · next pair hpair =>
        split at hpair
        · cases hpair
        · obtain ⟨raw, _, hpair⟩ := Option.map_eq_some_iff.mp hpair
          cases hpair
          exact ih.cons_cons r.1
  exact (hkeys rows.entries).nodup rows.nodupKeys

variable {store : Store V W F}

theorem lookup_entries (h : Recalls O m saves)
    (hentries : ∀ hash, store.entries.lookup hash = keptRaw saves hash)
    (job : Job P W F) (hash : Js.Text) :
    (eraseAll (putAll store.entries (written m job.rows))
      (m.withEntry.filter fun hash => decide (hash ∉ job.rows))).lookup hash =
      keptRaw (job :: saves) hash := by
  have hkeys : hash ∈ (written m job.rows).map Prod.fst →
      hash ∉ m.withEntry ∧ ((job.rows.lookup hash).bind (·.entry)).isSome = true := by
    intro hmem
    obtain ⟨⟨_, raw⟩, hraw, rfl⟩ := List.mem_map.mp hmem
    obtain ⟨hnew, hentry⟩ := mem_written.mp hraw
    exact ⟨hnew, by rw [hentry]; rfl⟩
  rw [lookup_eraseAll, keptRaw]
  cases hrow : job.rows.lookup hash with
  | none =>
    rw [Option.bind_none]
    split
    · rfl
    · next hkept =>
      have hgone : hash ∉ job.rows := AList.lookup_eq_none.mp hrow
      have hnew : hash ∉ m.withEntry :=
        fun hmem => hkept (List.mem_filter.mpr ⟨hmem, decide_eq_true hgone⟩)
      have hwritten : hash ∉ (written m job.rows).map Prod.fst := by
        intro hmem
        have hsome := (hkeys hmem).2
        rw [hrow] at hsome
        cases hsome
      rw [lookup_putAll_of_notMem hwritten, hentries]
      exact Option.not_isSome_iff_eq_none.mp (mt (h.entry hash).mpr hnew)
  | some row =>
    have hhere : hash ∈ job.rows := AList.lookup_isSome.mp (by rw [hrow]; rfl)
    rw [if_neg fun hmem => (of_decide_eq_true (List.mem_filter.mp hmem).2) hhere, Option.bind_some]
    by_cases hknown : hash ∈ m.withEntry
    · -- It is stored already, and not written again.
      have hsome := (h.entry hash).mp hknown
      rw [lookup_putAll_of_notMem fun hmem => (hkeys hmem).1 hknown, hentries,
        Option.or_of_isSome hsome]
    · have hnone : keptRaw saves hash = none :=
        Option.not_isSome_iff_eq_none.mp (mt (h.entry hash).mpr hknown)
      rw [hnone, Option.none_or]
      cases hentry : row.entry with
      | none =>
        have hwritten : hash ∉ (written m job.rows).map Prod.fst := by
          intro hmem
          have hsome := (hkeys hmem).2
          rw [hrow, Option.bind_some, hentry] at hsome
          cases hsome
        rw [lookup_putAll_of_notMem hwritten, hentries, hnone]
      | some raw =>
        have hwritten : (hash, raw) ∈ written m job.rows :=
          mem_written.mpr ⟨hknown, by rw [hrow, Option.bind_some, hentry]⟩
        exact lookup_putAll (nodup_written m job.rows) hwritten

theorem lookup_buckets {s : AList fun _ : List Char => Stored V W} {ids : List (List Char)}
    (hids : ids.Nodup) (rows : Rows P W) (id : List Char) :
    (eraseAll (putAll s ((ids.map fun id => (id, content O rows id)).filter fun b =>
      decide (b.2 ≠ [])))
      (((ids.map fun id => (id, content O rows id)).filter fun b => decide (b.2 = [])).map
        Prod.fst)).lookup id =
      if id ∈ ids then (if content O rows id = [] then none else some (content O rows id))
      else s.lookup id := by
  have hemptied : id ∈ (((ids.map fun id => (id, content O rows id)).filter fun b =>
    decide (b.2 = [])).map Prod.fst) ↔
      id ∈ ids ∧ content O rows id = [] := by
    rw [List.mem_map]
    constructor
    · rintro ⟨b, hb, rfl⟩
      obtain ⟨hmem, hempty⟩ := List.mem_filter.mp hb
      obtain ⟨id, hid, rfl⟩ := List.mem_map.mp hmem
      exact ⟨hid, of_decide_eq_true hempty⟩
    · rintro ⟨hid, hempty⟩
      exact ⟨_, List.mem_filter.mpr ⟨List.mem_map.mpr ⟨id, hid, rfl⟩, decide_eq_true hempty⟩, rfl⟩
  have hput : id ∈ (((ids.map fun id => (id, content O rows id)).filter fun b =>
    decide (b.2 ≠ [])).map Prod.fst) →
      id ∈ ids := by
    intro hmem
    obtain ⟨b, hb, rfl⟩ := List.mem_map.mp hmem
    obtain ⟨id, hid, rfl⟩ := List.mem_map.mp (List.mem_filter.mp hb).1
    exact hid
  have hnodup :
      (((ids.map fun id => (id, content O rows id)).filter fun b => decide (b.2 ≠ [])).map
        Prod.fst).Nodup := by
    have hkeys := (List.filter_sublist (p := fun b : List Char × Stored V W => decide (b.2 ≠ []))
      (l := ids.map fun id => (id, content O rows id))).map Prod.fst
    have hself : (ids.map fun id => (id, content O rows id)).map Prod.fst = ids := by
      rw [List.map_map]
      exact List.map_id ids
    rw [hself] at hkeys
    exact hkeys.nodup hids
  rw [lookup_eraseAll]
  by_cases hid : id ∈ ids
  · rw [if_pos hid]
    by_cases hempty : content O rows id = []
    · rw [if_pos (hemptied.mpr ⟨hid, hempty⟩), if_pos hempty]
    · rw [if_neg fun hmem => hempty (hemptied.mp hmem).2, if_neg hempty]
      have hmem : (id, content O rows id) ∈
          (ids.map fun id => (id, content O rows id)).filter fun b => decide (b.2 ≠ []) :=
        List.mem_filter.mpr ⟨List.mem_map.mpr ⟨id, hid, rfl⟩, decide_eq_true hempty⟩
      exact lookup_putAll hnodup hmem
  · rw [if_neg hid, if_neg fun hmem => hid (hemptied.mp hmem).1, lookup_putAll_of_notMem fun hmem =>
      hid (hput hmem)]

theorem remembered_iff (h : Recalls O m saves) (job : Job P W F) (hash : Js.Text) :
    hash ∈ ((m.withEntry ++ (written m job.rows).map Prod.fst).filter fun hash =>
      decide (hash ∉ m.withEntry.filter fun hash => decide (hash ∉ job.rows))) ↔
      (keptRaw (job :: saves) hash).isSome = true := by
  have hhere : hash ∈ job.rows ↔ ∃ row, job.rows.lookup hash = some row := by
    rw [← AList.lookup_isSome, Option.isSome_iff_exists]
  rw [keptRaw]
  simp only [List.mem_filter, List.mem_append, decide_eq_true_eq]
  constructor
  · rintro ⟨hknown | hwritten, hkept⟩
    · have hstays : hash ∈ job.rows := by
        by_contra hgone
        exact hkept ⟨hknown, hgone⟩
      obtain ⟨row, hrow⟩ := hhere.mp hstays
      rw [hrow, Option.bind_some, Option.or_of_isSome ((h.entry hash).mp hknown)]
      exact (h.entry hash).mp hknown
    · obtain ⟨⟨_, raw⟩, hraw, rfl⟩ := List.mem_map.mp hwritten
      obtain ⟨row, hrow, hentry⟩ := Option.bind_eq_some_iff.mp (mem_written.mp hraw).2
      rw [hrow, Option.bind_some, hentry, Option.isSome_or]
      exact Bool.or_true _
  · intro hsome
    obtain ⟨raw, hraw⟩ := Option.isSome_iff_exists.mp hsome
    obtain ⟨row, hrow, hor⟩ := Option.bind_eq_some_iff.mp hraw
    refine ⟨?_, fun hgone => hgone.2 (hhere.mpr ⟨row, hrow⟩)⟩
    by_cases hknown : hash ∈ m.withEntry
    · exact .inl hknown
    · have hnone : keptRaw saves hash = none :=
        Option.not_isSome_iff_eq_none.mp (mt (h.entry hash).mpr hknown)
      rw [hnone, Option.none_or] at hor
      exact .inr (List.mem_map.mpr
        ⟨_, mem_written.mpr ⟨hknown, by rw [hrow, Option.bind_some, hor]⟩, rfl⟩)

theorem lookup_unpack (n : ℕ) {stored : Stored V W} {f : Js.Text → Option (V × Option W)}
    (h : ∀ r ∈ stored, f r.1 = some r.2) (hall : ∀ hash x, f hash = some x → (hash, x) ∈ stored)
    (hash : Js.Text) :
    ((unpack O n stored).lookup hash).map (·.shown O) = f hash := by
  have hfold : ∀ (l : Stored V W) (rows : Rows P W), (∀ r ∈ l, f r.1 = some r.2) →
      ((l.foldl (fun rows r => rows.insert r.1 ⟨O.parse n r.1 r.2.1, r.2.2, none⟩) rows).lookup
        hash).map (·.shown O) =
        if hash ∈ l.map Prod.fst then f hash else (rows.lookup hash).map (·.shown O) := by
    intro l
    induction l with
    | nil => intro rows _; rfl
    | cons r l ih =>
      intro rows hl
      rw [List.foldl_cons, ih _ fun r' hr' => hl r' (List.mem_cons_of_mem r hr'), List.map_cons]
      by_cases hlater : hash ∈ l.map Prod.fst
      · rw [if_pos hlater, if_pos (List.mem_cons_of_mem _ hlater)]
      · rw [if_neg hlater]
        by_cases hfirst : hash = r.1
        · subst hfirst
          rw [if_pos List.mem_cons_self, AList.lookup_insert, hl r List.mem_cons_self]
          unfold CachedRow.shown
          rw [Option.map_some, O.value_parse]
        · rw [AList.lookup_insert_ne hfirst, if_neg fun hmem =>
            (List.mem_cons.mp hmem).elim hfirst hlater]
  unfold unpack
  rw [hfold stored ∅ h]
  split
  · rfl
  · next hnone =>
    rw [AList.lookup_empty, Option.map_none]
    cases hf : f hash with
    | none => rfl
    | some x => exact absurd (List.mem_map_of_mem (hall hash x hf)) hnone

theorem Level.recalls (h : Level O store saves) (n : ℕ) :
    Recalls O ⟨unpack O n (store.buckets.entries.flatMap fun slot => slot.2), store.entries.keys,
      false⟩ saves := by
  refine ⟨fun hash => lookup_unpack n ?_ ?_ hash, fun hash => ?_⟩
  · intro r hr
    obtain ⟨slot, hslot, hmem⟩ := List.mem_flatMap.mp hr
    have hlookup : store.buckets.lookup slot.1 = some slot.2 := AList.mem_lookup_iff.mpr hslot
    have hown := h.own slot.1 slot.2 hlookup r hmem
    exact (h.rows r.1 r.2).mp ⟨slot.2, by rw [hown, hlookup], hmem⟩
  · intro hash x hx
    obtain ⟨l, hl, hmem⟩ := (h.rows hash x).mpr hx
    exact List.mem_flatMap.mpr ⟨⟨_, l⟩, AList.mem_lookup_iff.mp hl, hmem⟩
  · rw [← h.entries, AList.lookup_isSome]
    exact Iff.rfl

theorem keep_of_marked (h : store.marker = true) : keep store = store :=
  if_pos h

theorem marker_keep (store : Store V W F) : (keep store).marker = true := by
  unfold keep
  split
  · next h => exact h
  · rfl

theorem Recalls.full (h : Recalls O m saves) (full : Bool) :
    Recalls O { m with full := full } saves := ⟨h.saved, h.entry⟩

variable [DecidableEq P] [DecidableEq W]

theorem unchanged_iff {was : Option (CachedRow P W)} {row : CachedRow P W} :
    changed was row = false ↔ ∃ w, was = some w ∧ w.preview = row.preview ∧
      w.version = row.version := by
  cases was with
  | none => simp [changed]
  | some w => simp [changed]

theorem Recalls.clean (h : Recalls O m saves) {job : Job P W F} {hash : Js.Text}
    (hclean : bucketOf hash ∉ dirty m job.rows) :
    lastRows O (job :: saves) hash = lastRows O saves hash := by
  unfold dirty at hclean
  rw [List.mem_dedup, List.mem_append, List.mem_append, not_or, not_or] at hclean
  obtain ⟨⟨_, hchanged⟩, hremoved⟩ := hclean
  rw [lastRows, ← h.saved]
  cases hrow : job.rows.lookup hash with
  | none =>
    have hgone : hash ∉ job.rows := AList.lookup_eq_none.mp hrow
    have hnone : m.saved.lookup hash = none := by
      rw [AList.lookup_eq_none]
      intro hmem
      exact hremoved
        (List.mem_map.mpr ⟨hash, List.mem_filter.mpr ⟨hmem, decide_eq_true hgone⟩, rfl⟩)
    rw [hnone]
  | some row =>
    have hsame : changed (m.saved.lookup hash) row = false := by
      by_contra hnew
      rw [Bool.not_eq_false] at hnew
      exact hchanged (List.mem_map.mpr
        ⟨⟨hash, row⟩, List.mem_filter.mpr ⟨AList.mem_lookup_iff.mp hrow, hnew⟩, rfl⟩)
    obtain ⟨was, hwas, hpreview, hversion⟩ := unchanged_iff.mp hsame
    rw [hwas, Option.map_some, Option.map_some]
    unfold CachedRow.shown
    rw [hpreview, hversion]

theorem nodup_dirty (m : Memory P W) (rows : Rows P W) : (dirty m rows).Nodup := List.nodup_dedup _

theorem Recalls.level_put (h : Recalls O m saves) (hlevel : Level O store saves) {job : Job P W F}
    {b : Batch V W F} (hplan : plan O m job = some b) :
    Level O (store.put b) (job :: saves) ∧ Recalls O (m.after job b) (job :: saves) := by
  unfold plan at hplan
  dsimp only at hplan
  split at hplan
  · cases hplan
  obtain rfl := Option.some.inj hplan
  have hbuckets := lookup_buckets (s := store.buckets) (O := O) (nodup_dirty m job.rows) job.rows
  have hentries := lookup_entries h hlevel.entries job
  constructor
  · refine ⟨fun hash x => ?_, fun id l hl => ?_, ?_, hentries⟩
    · have hlookup := hbuckets (bucketOf hash)
      unfold Store.put
      dsimp only
      rw [hlookup]
      by_cases hdirty : bucketOf hash ∈ dirty m job.rows
      · rw [if_pos hdirty, lastRows, ← (@mem_content _ _ _ O job.rows (bucketOf hash) hash x).trans
          (and_iff_right rfl)]
        constructor
        · rintro ⟨l, hl, hmem⟩
          split at hl
          · cases hl
          · cases hl
            exact hmem
        · intro hmem
          refine ⟨_, if_neg ?_, hmem⟩
          exact List.ne_nil_of_mem hmem
      · rw [if_neg hdirty, h.clean hdirty]
        exact hlevel.rows hash x
    · unfold Store.put at hl
      dsimp only at hl
      rw [hbuckets id] at hl
      intro r hr
      split at hl
      · split at hl
        · cases hl
        · cases hl
          exact (mem_content.mp hr).1
      · exact hlevel.own id l hl r hr
    · unfold Store.put
      dsimp only
      rw [hlevel.position]
      rfl
  · refine ⟨fun hash => rfl, fun hash => ?_⟩
    exact remembered_iff h job hash

theorem Recalls.level_unwritten (h : Recalls O m saves) (hlevel : Level O store saves)
    {job : Job P W F} (hplan : plan O m job = none) :
    Level O store (job :: saves) ∧ Recalls O m (job :: saves) := by
  unfold plan at hplan
  dsimp only at hplan
  split at hplan
  · next hnothing =>
    obtain ⟨hdirty, hwritten, hposition⟩ := hnothing
    have hclean : ∀ hash, lastRows O (job :: saves) hash = lastRows O saves hash := by
      intro hash
      apply h.clean
      rw [hdirty]
      exact List.not_mem_nil
    have hraw : ∀ hash, keptRaw (job :: saves) hash = keptRaw saves hash := by
      intro hash
      rw [keptRaw]
      cases hrow : job.rows.lookup hash with
      | none =>
        have hnone : lastRows O saves hash = none := by
          rw [← hclean, lastRows, hrow]
          rfl
        exact (lastRows_of_keptRaw hnone).symm
      | some row =>
        rw [Option.bind_some]
        by_cases hknown : hash ∈ m.withEntry
        · exact Option.or_of_isSome ((h.entry hash).mp hknown)
        · have hentry : row.entry = none := by
            by_contra hsome
            obtain ⟨raw, hentry⟩ := Option.ne_none_iff_exists'.mp hsome
            have hmem : (hash, raw) ∈ written m job.rows :=
              mem_written.mpr ⟨hknown, by rw [hrow, Option.bind_some, hentry]⟩
            rw [hwritten] at hmem
            cases hmem
          rw [hentry, Option.or_none]
    refine ⟨⟨fun hash x => ?_, hlevel.own, ?_, fun hash => ?_⟩, ⟨fun hash => ?_, fun hash => ?_⟩⟩
    · rw [hclean]
      exact hlevel.rows hash x
    · rw [hlevel.position, lastPosition, hposition]
      rfl
    · rw [hraw]
      exact hlevel.entries hash
    · rw [hclean]
      exact h.saved hash
    · rw [hraw]
      exact h.entry hash
  · cases hplan

structure Sound (O : Objects P V) (s : State P V W F) : Prop where
  level : Level O (keep s.store) s.saves
  marked : s.memory.isSome = true → s.store.marker = true
  recalls : ∀ m, s.memory = some m → Recalls O m s.saves
  planned : ∀ m job b, s.memory = some m → s.active = some (job, b) →
    ∃ full, plan O { m with full := full } job = some b

theorem sound_start (store : Store V W F) : Sound O (start store : State P V W F) := by
  have hkeep : keep (start store : State P V W F).store = { Store.empty with marker := true } := rfl
  refine ⟨?_, fun h => (by cases h), fun m h => (by cases h), fun m job b h => (by cases h)⟩
  rw [hkeep]
  refine ⟨fun hash x => ?_, fun id l hl => (by cases hl), rfl, fun hash => rfl⟩
  constructor
  · rintro ⟨l, hl, _⟩
    cases hl
  · intro hx
    cases hx

theorem Sound.step {s : State P V W F} (h : Sound O s) (e : Event P W F) :
    Sound O (step O s e) := by
  cases e with
  | openCache opening =>
    cases opening with
    | opened =>
      have hkept := keep_of_marked (marker_keep s.store)
      refine ⟨?_, fun _ => marker_keep s.store, fun m hm => ?_, fun m job b _ hactive =>
        (by cases hactive)⟩
      · exact hkept.symm ▸ h.level
      · cases hm
        exact h.level.recalls s.loads
    | unread =>
      exact ⟨h.level, fun hm => (by cases hm), fun m hm => (by cases hm),
        fun m job b hm => (by cases hm)⟩
    | wiped =>
      unfold PreviewCache.step
      dsimp only
      split
      · exact ⟨h.level, fun hm => (by cases hm), fun m hm => (by cases hm), fun m job b hm =>
          (by cases hm)⟩
      · next hmarker =>
        refine ⟨?_, fun hm => (by cases hm), fun m hm => (by cases hm), fun m job b hm =>
          (by cases hm)⟩
        have hlevel := h.level
        unfold keep at hlevel
        rw [if_neg hmarker] at hlevel
        exact hlevel
  | save job =>
    unfold PreviewCache.step
    dsimp only
    split
    · exact ⟨h.level, h.marked, h.recalls, h.planned⟩
    · exact h
  | rewriteAll =>
    refine ⟨h.level, fun hm => h.marked ?_, fun m hm => ?_, fun m job b hm hactive => ?_⟩
    · rwa [PreviewCache.step, Option.isSome_map] at hm
    · obtain ⟨m', hm', rfl⟩ := Option.map_eq_some_iff.mp hm
      exact (h.recalls m' hm').full true
    · obtain ⟨m', hm', rfl⟩ := Option.map_eq_some_iff.mp hm
      obtain ⟨full, hplan⟩ := h.planned m' job b hm' hactive
      exact ⟨full, hplan⟩
  | begin =>
    unfold PreviewCache.step
    dsimp only
    split
    · next m job queue hm hactive hqueue =>
      have hmarker := h.marked (by rw [hm]; rfl)
      have hrecalls := h.recalls m hm
      split
      · next hplan =>
        obtain ⟨hlevel, hnext⟩ := hrecalls.level_unwritten h.level hplan
        refine ⟨hlevel, fun _ => hmarker, fun m' hm' => ?_, fun m' job' b _ hb => ?_⟩
        · cases hm.symm.trans hm'
          exact hnext
        · cases hactive.symm.trans hb
      · next b hplan =>
        refine ⟨h.level, fun _ => hmarker, h.recalls, fun m' job' b' hm' hb => ?_⟩
        cases hm.symm.trans hm'
        cases hb
        exact ⟨m.full, hplan⟩
    · exact h
  | finish ok =>
    unfold PreviewCache.step
    dsimp only
    split
    · next m job b hm hactive =>
      have hmarker := h.marked (by rw [hm]; rfl)
      split
      · obtain ⟨full, hplan⟩ := h.planned m job b hm hactive
        have hlevel := h.level
        rw [keep_of_marked hmarker] at hlevel
        obtain ⟨hput, hnext⟩ := ((h.recalls m hm).full full).level_put hlevel hplan
        refine ⟨?_, fun _ => hmarker, fun m' hm' => ?_, fun m' job' b' _ hb => (by cases hb)⟩
        · have hkept : keep (s.store.put b) = s.store.put b := keep_of_marked hmarker
          rw [hkept]
          exact hput
        · cases hm'
          exact hnext
      · exact ⟨h.level, h.marked, h.recalls, fun m' job' b' _ hb => (by cases hb)⟩
    · exact h

end Sound

section Faithful

variable (O : Objects P V)

theorem keptRaw_of_kept {newer older : List (Job P W F)} {job : Job P W F} {hash : Js.Text}
    {row : CachedRow P W} {raw : String} (hrow : job.rows.lookup hash = some row)
    (hentry : row.entry = some raw) (hold : keptRaw older hash = none)
    (hkept : ∀ later ∈ newer, hash ∈ later.rows) :
    keptRaw (newer ++ job :: older) hash = some raw := by
  induction newer with
  | nil => rw [List.nil_append, keptRaw, hrow, Option.bind_some, hold, Option.none_or, hentry]
  | cons later newer ih =>
    have hstays := ih fun l hl => hkept l (List.mem_cons_of_mem later hl)
    obtain ⟨last, hlast⟩ :=
      Option.isSome_iff_exists.mp (AList.lookup_isSome.mpr (hkept later List.mem_cons_self))
    rw [List.cons_append, keptRaw, hlast, Option.bind_some, hstays, Option.some_or]

structure Faithful (n : ℕ) (s : State P V W F) : Prop where
  rows : ∀ hash, ((load O n s.store).memory.saved.lookup hash).map (·.shown O) =
    lastRows O s.saves hash
  position : (load O n s.store).position = lastPosition s.saves
  entries : ∀ hash, (load O n s.store).store.entries.lookup hash = keptRaw s.saves hash
  kept : ∀ newer job older hash row raw, s.saves = newer ++ job :: older → job.rows.lookup hash =
    some row →
    row.entry = some raw → keptRaw older hash = none → (∀ later ∈ newer, hash ∈ later.rows) →
    (load O n s.store).store.entries.lookup hash = some raw

theorem incremental_writes_equal_full_writes [DecidableEq P] [DecidableEq W] (store : Store V W F)
    (es : List (Event P W F)) (n : ℕ) : Faithful O n (Machine.run (step O) (start store) es) := by
  have hsound : Sound O (Machine.run (step O) (start store) es) :=
    Machine.Reachable.invariant ⟨es, rfl⟩ (sound_start store) fun s e h => h.step e
  refine ⟨(hsound.level.recalls n).saved, hsound.level.position, hsound.level.entries, ?_⟩
  intro newer job older hash row raw hsaves hrow hentry hold hkept
  have hraw := hsound.level.entries hash
  rw [hsaves, keptRaw_of_kept hrow hentry hold hkept] at hraw
  exact hraw

end Faithful

end Dmcn.PreviewCache
