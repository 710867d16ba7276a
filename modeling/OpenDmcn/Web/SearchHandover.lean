import OpenDmcn.Web.SearchIndex

/-! A tab takes the search index over from another one (`becomeWriter` of
`search/useSearchIndex.ts`): it reads again what is on disk and writes from there. Lookups go on
beside that, so a load that has read its record before the other tab's last write must not end after
the reload has cleared the cache: what it keeps would be the base of what is written next. -/

namespace Dmcn.Web.Search

open Go Drafts

section Storage

variable (p : Platform)

def openRecord : Option Bytes → Option Shard
  | none => some []
  | some record => decodeShard p record

def Storage.shard (d : Storage) (id : String) : Option Shard := openRecord p (d.shards id)

def Storage.catalog (d : Storage) : Manifest := d.manifest.getD .empty

def Manifest.numbers (m : Manifest) : List ℕ := m.docs.map Prod.snd

def Storage.fileMap (d : Storage) : FileMap := d.files.getD []

structure Manifest.WellFormed (m : Manifest) : Prop where
  keys : (m.docs.map Prod.fst).Nodup
  numbers : m.numbers.Nodup
  below : ∀ doc ∈ m.numbers, doc < m.next

/-- What an index leaves on disk: records that open, all of them in the manifest, and numbers that
are used once. -/
structure Storage.WellFormed (d : Storage) : Prop where
  opens : ∀ id, ∃ shard, d.shard p id = some shard ∧ shard.Valid
  listed : ∀ id, d.shards id ≠ none → id ∈ d.catalog.shards
  catalog : d.catalog.WellFormed

def Later (D : Storage) (id : String) (shard : Shard) : Prop :=
  shard.Valid ∧ ∃ old, D.shard p id = some old ∧ old.Grown shard ∧ ∀ t doc, old.Posting t doc →
    shard.Posting t doc

def KeepsNames (D : Storage) (docs : List ℕ) (files : FileMap) : Prop :=
  ∀ doc ∈ docs, doc < D.catalog.next → files.lookup doc = D.fileMap.lookup doc

def LaterRecord (D : Storage) (id : String) (record : Option Bytes) : Prop :=
  ∃ shard, openRecord p record = some shard ∧ Later p D id shard

end Storage

def Running.reloading : Running → Bool
  | .rereading | .reread _ | .reopening _ => true
  | _ => false

def System.reloading (s : System) : Bool := s.running.any Running.reloading

def System.indexed (s : System) : List ℕ :=
  if s.reloading then s.disk.catalog.numbers else s.memory.docs.map Prod.snd

/-- What the hand-over keeps of `D`, the disk at the reload, in the cache and on disk. -/
structure HandedOver (p : Platform) (D : Storage) (s : System) : Prop where
  cached : ∀ e ∈ s.memory.cache, ∃ shard, s.memory.heap[e.2.ref]? = some shard ∧ Later p D e.1 shard
  files : ∀ ref, s.memory.files = some ref → ∃ files, s.memory.fileHeap[ref]? = some files ∧
    KeepsNames D s.indexed files
  stored : ∀ id, LaterRecord p D id (s.disk.shards id)
  storedFiles : KeepsNames D s.disk.catalog.numbers s.disk.fileMap

section Loads

variable (p : Platform) (D : Storage)

def ShardLoad.Sound (l : ShardLoad) : Prop :=
  match l.phase with
  | .answered record => LaterRecord p D l.id record
  | .opening record => LaterRecord p D l.id (some record)
  | _ => True

def FileLoad.Sound (docs : List ℕ) : FileLoad → Prop
  | .answered record => KeepsNames D docs (record.getD [])
  | .opening files => KeepsNames D docs files
  | _ => True

structure Continues (next : ℕ) (docs : List (String × ℕ)) (shards : List String) : Prop where
  listed : ∀ id, D.shards id ≠ none → id ∈ shards
  next_le : D.catalog.next ≤ next
  keys : (docs.map Prod.fst).Nodup
  numbers : (docs.map Prod.snd).Nodup
  below : ∀ doc ∈ docs.map Prod.snd, doc < next

structure Contents (docs stored : List ℕ) (m : Memory) : Prop where
  cached : ∀ e ∈ m.cache, ∃ shard, m.heap[e.2.ref]? = some shard ∧ Later p D e.1 shard
  loads : ∀ l ∈ m.loads, l.Sound p D
  files : ∀ ref, m.files = some ref → ∃ files, m.fileHeap[ref]? = some files ∧
    KeepsNames D docs files
  fileLoads : ∀ l ∈ m.fileLoads, l.Sound D stored

def LaterPuts (puts : List (String × Bytes)) : Prop := ∀ e ∈ puts, LaterRecord p D e.1 (some e.2)

def Running.Sound (disk : Storage) (m : Memory) : Running → Prop
  | .adding hash groups _ _ => hash ∉ m.docs.map Prod.fst ∧ ∀ g ∈ groups, ∀ t ∈ g.2, Plain t
  | .naming hash doc _ _ =>
    hash ∉ m.docs.map Prod.fst ∧ doc ∉ m.docs.map Prod.snd ∧ D.catalog.next ≤ doc ∧ doc < m.next
  | .removing doc _ _ => doc ∉ m.docs.map Prod.snd
  | .sealing _ puts => LaterPuts p D puts
  | .sealingFiles puts files => LaterPuts p D puts ∧ KeepsNames D (m.docs.map Prod.snd) files
  | .sealingManifest puts files manifest | .committing puts files manifest =>
    LaterPuts p D puts ∧ (∀ f, files = some f → KeepsNames D manifest.numbers f) ∧
      manifest.docs = m.docs ∧ Continues D manifest.next manifest.docs manifest.shards
  | .committed => True
  | .rereading => True
  | .reread manifest => disk.manifest = manifest
  | .reopening manifest => disk.manifest = some manifest ∧ m.docs = [] ∧ m.shardIds = []

structure Current (disk : Storage) (m : Memory) : Prop where
  contents : Contents p D (m.docs.map Prod.snd) disk.catalog.numbers m
  continues : Continues D m.next m.docs m.shardIds
  kept : ∀ doc ∈ m.docs.map Prod.snd, doc < D.catalog.next → doc ∈ disk.catalog.numbers

def Outcome (disk : Storage) (o : Memory × Option Running) : Prop :=
  Current p D disk o.1 ∧ ∀ r, o.2 = some r → r.reloading = false ∧ r.Sound p D disk o.1

structure TakenOver (s : System) : Prop where
  contents : Contents p D s.indexed s.disk.catalog.numbers s.memory
  stored : ∀ id, LaterRecord p D id (s.disk.shards id)
  storedFiles : KeepsNames D s.disk.catalog.numbers s.disk.fileMap
  continues : s.reloading = false → Continues D s.memory.next s.memory.docs s.memory.shardIds
  storedContinues : Continues D s.disk.catalog.next s.disk.catalog.docs s.disk.catalog.shards
  kept : s.reloading = false → ∀ doc ∈ s.memory.docs.map Prod.snd, doc < D.catalog.next →
    doc ∈ s.disk.catalog.numbers
  running : ∀ r, s.running = some r → r.Sound p D s.disk s.memory

end Loads

theorem getElem?_append_some {α : Type} {l : List α} {n : ℕ} {x : α} (y : α) (h : l[n]? = some x) :
    (l ++ [y])[n]? = some x := by
  rw [List.getElem?_append_left (List.getElem?_eq_some_iff.mp h).1]
  exact h

theorem lookup_deleteEntry_of_ne {κ ν : Type} [DecidableEq κ] {m : List (κ × ν)} {k k' : κ}
    (hne : k' ≠ k) :
    (deleteEntry m k).lookup k' = m.lookup k' := by
  unfold deleteEntry
  induction m with
  | nil => rfl
  | cons e m ih =>
    obtain ⟨k₀, v₀⟩ := e
    by_cases hk : k₀ = k
    · subst hk
      rw [List.filter_cons_of_neg (by simp), List.lookup_cons, beq_eq_false_iff_ne.mpr hne]
      exact ih
    · rw [List.filter_cons_of_pos (by simpa using hk), List.lookup_cons, List.lookup_cons, ih]

section Frame

variable (m : Memory)

@[simp] theorem manifestJSON_keep (id : String) (shard : Shard) (bytes : ℕ) :
    (m.keep id shard bytes).1.manifestJSON = m.manifestJSON := by
  unfold Memory.keep
  split
  · rfl
  · rfl

@[simp] theorem manifestJSON_shard (id : String) :
    (m.shard id).1.manifestJSON = m.manifestJSON := by
  unfold Memory.shard
  split
  · rfl
  · split
    · rfl
    · split
      · rfl
      · exact manifestJSON_keep m id [] 0

@[simp] theorem manifestJSON_stepLoad (p : Platform) (disk : Storage) (n : ℕ) :
    (m.stepLoad p disk n).manifestJSON = m.manifestJSON := by
  unfold Memory.stepLoad
  split
  · rfl
  · next l _ =>
    split
    · rfl
    · exact manifestJSON_keep m l.id [] 0
    · rfl
    · split
      · rfl
      · exact manifestJSON_keep m l.id _ _
    · rfl
    · rfl

@[simp] theorem manifestJSON_loadFiles : m.loadFiles.1.manifestJSON = m.manifestJSON := by
  unfold Memory.loadFiles
  split
  · rfl
  · rfl

@[simp] theorem manifestJSON_keepFiles (files : FileMap) :
    (m.keepFiles files).1.manifestJSON = m.manifestJSON := by
  unfold Memory.keepFiles
  split
  · rfl
  · rfl

@[simp] theorem manifestJSON_stepFileLoad (disk : Storage) (n : ℕ) :
    (m.stepFileLoad disk n).manifestJSON = m.manifestJSON := by
  unfold Memory.stepFileLoad
  dsimp only
  split
  · rfl
  · exact manifestJSON_keepFiles m []
  · rfl
  · exact manifestJSON_keepFiles m _
  · rfl

theorem scan_memory (rest : List String) (t : String) (ids : List String) (found : List ℕ)
    (docs : Option (List ℕ)) :
    (scan m rest t ids found docs).1 = m ∨ ∃ id ∈ m.shardIds, (scan m rest t ids found docs).1 =
      (m.shard id).1 := by
  have hhead : ∀ {l l' : List String} {id : String}, l.dropWhile (· ∉ m.shardIds) = id :: l' →
      id ∈ m.shardIds := by
    intro l l' id hdrop
    have hnot := List.head_dropWhile_not (· ∉ m.shardIds) (l := l)
      (by rw [hdrop]; exact List.cons_ne_nil _ _)
    simp only [hdrop, List.head_cons, decide_eq_false_iff_not, not_not] at hnot
    exact hnot
  induction rest generalizing t ids found docs with
  | nil =>
    unfold scan
    split
    · next hdrop => exact .inr ⟨_, hhead hdrop, rfl⟩
    · exact .inl rfl
  | cons t' rest ih =>
    unfold scan
    split
    · next hdrop => exact .inr ⟨_, hhead hdrop, rfl⟩
    · have hrest : ∀ (ds : List ℕ) (r : Memory × Lookup),
          r = (if ds = [] then (m, .done []) else scan m rest t' (idsFor m t') [] (some ds)) →
            r.1 = m ∨ ∃ id ∈ m.shardIds, r.1 = (m.shard id).1 := by
        rintro ds r rfl
        split
        · exact .inl rfl
        · exact ih ..
      exact hrest _ _ rfl

theorem wordHits_memory (p : Platform) (term : String) :
    (wordHits p m term).1 = m ∨ ∃ id ∈ m.shardIds, (wordHits p m term).1 = (m.shard id).1 := by
  unfold wordHits
  split
  · exact .inl rfl
  · exact scan_memory m ..

theorem stepLookup_memory (l : Lookup) :
    (stepLookup m l).1 = m ∨ ∃ id ∈ m.shardIds, (stepLookup m l).1 = (m.shard id).1 := by
  cases l with
  | words t ids found docs rest w =>
    unfold stepLookup
    dsimp only
    split
    · exact .inl rfl
    · exact scan_memory m ..
  | filenames matches' w =>
    unfold stepLookup
    dsimp only
    split
    · exact .inl rfl
    · exact .inl rfl
  | done hits => exact .inl rfl

end Frame

section Contents

variable {p : Platform} {D disk : Storage} {docs stored : List ℕ} {m : Memory}

theorem Contents.congr {m' : Memory} (h : Contents p D docs stored m) (hcache : m'.cache = m.cache)
    (hheap : m'.heap = m.heap) (hloads : m'.loads = m.loads) (hfiles : m'.files = m.files)
    (hfileHeap : m'.fileHeap = m.fileHeap) (hfileLoads : m'.fileLoads = m.fileLoads) :
    Contents p D docs stored m' := by
  refine ⟨?_, ?_, ?_, ?_⟩
  · rw [hcache, hheap]
    exact h.cached
  · rw [hloads]
    exact h.loads
  · rw [hfiles, hfileHeap]
    exact h.files
  · rw [hfileLoads]
    exact h.fileLoads

theorem contents_keep (h : Contents p D docs stored m) {id : String} {shard : Shard}
    (hshard : Later p D id shard) (bytes : ℕ) :
    Contents p D docs stored (m.keep id shard bytes).1 := by
  unfold Memory.keep
  split
  · exact h
  · refine ⟨?_, h.loads, h.files, h.fileLoads⟩
    intro e he
    rcases mem_setEntry he with rfl | ⟨he, -⟩
    · exact ⟨shard, List.getElem?_concat_length, hshard⟩
    · obtain ⟨shard', hshard', hlater⟩ := h.cached e he
      exact ⟨shard', getElem?_append_some shard hshard', hlater⟩

theorem contents_startLoad (h : Contents p D docs stored m) {id : String} {phase : ShardPhase}
    (hphase : ShardLoad.Sound p D ⟨id, phase⟩) :
    Contents p D docs stored (m.startLoad id phase).1 := by
  refine ⟨h.cached, ?_, h.files, h.fileLoads⟩
  intro l hl
  rcases List.mem_append.mp hl with hl | hl
  · exact h.loads l hl
  · rw [List.mem_singleton.mp hl]
    exact hphase

theorem contents_shard (hD : D.WellFormed p) (h : Contents p D docs stored m) {id : String}
    (hid : D.shards id ≠ none → id ∈ m.shardIds) : Contents p D docs stored (m.shard id).1 := by
  unfold Memory.shard
  split
  · next hit hlookup =>
    refine ⟨?_, h.loads, h.files, h.fileLoads⟩
    intro e he
    rcases mem_setEntry he with rfl | ⟨he, -⟩
    · exact h.cached _ (mem_of_lookup hlookup)
    · exact h.cached e (List.mem_filter.mp he).1
  · split
    · exact h
    · split
      · exact contents_startLoad h trivial
      · next hnew =>
        have hnone : D.shards id = none := by
          by_contra hsome
          exact hnew (hid hsome)
        have hopen : D.shard p id = some [] := by
          unfold Storage.shard
          rw [hnone]
          rfl
        obtain ⟨shard, hshard, hvalid⟩ := hD.opens id
        rw [hopen] at hshard
        cases hshard
        exact contents_startLoad
          (contents_keep h ⟨hvalid, [], hopen, .refl [], fun _ _ hposting => hposting⟩ 0) trivial

theorem contents_setLoad (h : Contents p D docs stored m) {n : ℕ} {l : ShardLoad}
    {phase : ShardPhase} (hl : m.loads[n]? = some l) (hphase : ShardLoad.Sound p D ⟨l.id, phase⟩) :
    Contents p D docs stored (m.setLoad n phase) := by
  refine ⟨h.cached, ?_, h.files, h.fileLoads⟩
  intro l' hl'
  obtain ⟨i, hi⟩ := List.mem_iff_getElem?.mp hl'
  change (m.loads.modify n _)[i]? = some l' at hi
  rw [List.getElem?_modify] at hi
  obtain ⟨l₀, hl₀, heq⟩ := Option.map_eq_some_iff.mp hi
  by_cases hni : n = i
  · subst hni
    rw [if_pos rfl] at heq
    obtain rfl : l₀ = l := Option.some.inj (hl₀.symm.trans hl)
    rw [← heq]
    exact hphase
  · rw [if_neg hni] at heq
    rw [← heq]
    exact h.loads l₀ (List.mem_of_getElem? hl₀)

theorem contents_stepLoad (h : Contents p D docs stored m)
    (hdisk : ∀ id, LaterRecord p D id (disk.shards id)) (n : ℕ) :
    Contents p D docs stored (m.stepLoad p disk n) := by
  have hkept : ∀ {l : ShardLoad} {shard : Shard} {bytes ref : ℕ}, m.loads[n]? = some l →
      Later p D l.id shard →
      Contents p D docs stored ((m.keep l.id shard bytes).1.setLoad n (.finished ref)) := by
    intro l shard bytes ref hl hshard
    have hsame : (m.keep l.id shard bytes).1.loads = m.loads := by
      unfold Memory.keep
      split
      · rfl
      · rfl
    exact contents_setLoad (contents_keep h hshard bytes) (by rw [hsame]; exact hl) trivial
  unfold Memory.stepLoad
  split
  · exact h
  · next l hl =>
    have hsound := h.loads l (List.mem_of_getElem? hl)
    unfold ShardLoad.Sound at hsound
    split
    · exact contents_setLoad h hl (hdisk l.id)
    · next hphase =>
      rw [hphase] at hsound
      obtain ⟨shard, hopen, hlater⟩ := hsound
      cases hopen
      exact hkept hl hlater
    · next hphase =>
      rw [hphase] at hsound
      exact contents_setLoad h hl hsound
    · next record hphase =>
      rw [hphase] at hsound
      obtain ⟨shard, hopen, hlater⟩ := hsound
      have hdecode : decodeShard p record = some shard := hopen
      rw [hdecode]
      exact hkept hl hlater
    · next ref _ =>
      have hsettled : Contents p D docs stored (m.setLoad n (.settled ref)) :=
        contents_setLoad h hl trivial
      exact hsettled.congr rfl rfl rfl rfl rfl rfl
    · exact h

theorem contents_loadFiles (h : Contents p D docs stored m) :
    Contents p D docs stored m.loadFiles.1 := by
  unfold Memory.loadFiles
  split
  · exact h
  · refine ⟨h.cached, h.loads, h.files, ?_⟩
    intro l hl
    rcases List.mem_append.mp hl with hl | hl
    · exact h.fileLoads l hl
    · rw [List.mem_singleton.mp hl]
      trivial

theorem contents_keepFiles (h : Contents p D docs stored m) {files : FileMap}
    (hfiles : KeepsNames D docs files) :
    Contents p D docs stored (m.keepFiles files).1 := by
  unfold Memory.keepFiles
  split
  · exact h
  · refine ⟨h.cached, h.loads, ?_, h.fileLoads⟩
    intro ref href
    obtain rfl : m.fileHeap.length = ref := Option.some.inj href
    exact ⟨files, List.getElem?_concat_length, hfiles⟩

theorem contents_setFileLoad (h : Contents p D docs stored m) {n : ℕ} {l : FileLoad}
    (hl : l.Sound D stored) :
    Contents p D docs stored { m with fileLoads := m.fileLoads.set n l } := by
  refine ⟨h.cached, h.loads, h.files, ?_⟩
  intro l' hl'
  rcases List.mem_or_eq_of_mem_set hl' with hmem | rfl
  · exact h.fileLoads l' hmem
  · exact hl

theorem contents_stepFileLoad (h : Contents p D docs stored m)
    (hdisk : KeepsNames D stored disk.fileMap)
    (hsub : ∀ doc ∈ docs, doc < D.catalog.next → doc ∈ stored) (n : ℕ) :
    Contents p D docs stored (m.stepFileLoad disk n) := by
  have hindexed : ∀ {files : FileMap}, KeepsNames D stored files → KeepsNames D docs files :=
    fun hfiles doc hdoc hlt => hfiles doc (hsub doc hdoc hlt) hlt
  unfold Memory.stepFileLoad
  dsimp only
  split
  · exact contents_setFileLoad h hdisk
  · next hl =>
    have hsound := h.fileLoads _ (List.mem_of_getElem? hl)
    exact contents_setFileLoad (contents_keepFiles h (hindexed hsound)) trivial
  · next hl =>
    have hsound := h.fileLoads _ (List.mem_of_getElem? hl)
    exact contents_setFileLoad h hsound
  · next hl =>
    have hsound := h.fileLoads _ (List.mem_of_getElem? hl)
    exact contents_setFileLoad (contents_keepFiles h (hindexed hsound)) trivial
  · exact h

end Contents

section Changes

variable {p : Platform} {D disk : Storage} {m m' : Memory}

theorem Current.of_contents (h : Current p D disk m) (hsame : m'.manifestJSON = m.manifestJSON)
    (hcontents : Contents p D (m.docs.map Prod.snd) disk.catalog.numbers m') :
    Current p D disk m' := by
  have hnext : m'.next = m.next := congrArg Manifest.next hsame
  have hdocs : m'.docs = m.docs := congrArg Manifest.docs hsame
  have hshards : m'.shardIds = m.shardIds := congrArg Manifest.shards hsame
  refine ⟨?_, ?_, ?_⟩
  · rw [hdocs]
    exact hcontents
  · rw [hnext, hdocs, hshards]
    exact h.continues
  · rw [hdocs]
    exact h.kept

theorem current_shard (hD : D.WellFormed p) (h : Current p D disk m) (id : String) :
    Current p D disk (m.shard id).1 :=
  h.of_contents (manifestJSON_shard m id) (contents_shard hD h.contents (h.continues.listed id))

theorem current_loadFiles (h : Current p D disk m) : Current p D disk m.loadFiles.1 :=
  h.of_contents (manifestJSON_loadFiles m) (contents_loadFiles h.contents)

theorem current_startShards (hD : D.WellFormed p) (h : Current p D disk m) (ids : List String) :
    Current p D disk (startShards m ids).1 ∧ (startShards m ids).1.manifestJSON =
      m.manifestJSON := by
  have hall : ∀ (acc : Memory × List Wait), Current p D disk acc.1 →
      acc.1.manifestJSON = m.manifestJSON →
      Current p D disk
        (ids.foldl (fun acc id => ((acc.1.shard id).1, acc.2 ++ [(acc.1.shard id).2])) acc).1 ∧
        (ids.foldl (fun acc id => ((acc.1.shard id).1, acc.2 ++ [(acc.1.shard id).2]))
          acc).1.manifestJSON =
          m.manifestJSON := by
    induction ids with
    | nil => exact fun acc hacc hsame => ⟨hacc, hsame⟩
    | cons id ids ih =>
      intro acc hacc hsame
      exact ih _ (current_shard hD hacc id) ((manifestJSON_shard acc.1 id).trans hsame)
  exact hall (m, []) h rfl

theorem mem_of_mem_byShard {tokens : List String} {g : String × List String}
    (hg : g ∈ byShard tokens) {t : String} (ht : t ∈ g.2) : t ∈ tokens := by
  have hall : ∀ (rest : List String) (out : List (String × List String)),
      (∀ g ∈ out, ∀ t ∈ g.2, t ∈ tokens) →
      (∀ t ∈ rest, t ∈ tokens) →
      ∀ g ∈ rest.foldl (fun out t =>
        setEntry out (shardOf t) (((out.lookup (shardOf t)).getD []) ++ [t])) out,
        ∀ t ∈ g.2, t ∈ tokens := by
    intro rest
    induction rest with
    | nil => exact fun out hout _ => hout
    | cons t rest ih =>
      intro out hout hrest
      apply ih _ _ fun t' ht' => hrest t' (List.mem_cons_of_mem _ ht')
      intro g hg t' ht'
      rcases mem_setEntry hg with rfl | ⟨hg, -⟩
      · rcases List.mem_append.mp ht' with ht' | ht'
        · cases hlookup : out.lookup (shardOf t) with
          | none =>
            rw [hlookup] at ht'
            cases ht'
          | some old =>
            rw [hlookup] at ht'
            exact hout _ (mem_of_lookup hlookup) t' ht'
        · rw [List.mem_singleton.mp ht']
          exact hrest t List.mem_cons_self
      · exact hout g hg t' ht'
  exact hall tokens [] (fun g hg => absurd hg List.not_mem_nil) (fun t ht => ht) g hg t ht

theorem outcome_beginAdd (hp : p.Lawful) (hD : D.WellFormed p) (h : Current p D disk m)
    (hash text : String) (filenames : List String) :
    Outcome p D disk (beginAdd p m hash text filenames) := by
  unfold beginAdd
  split
  · exact ⟨h, fun r hr => (nomatch hr)⟩
  · next hhash =>
    obtain ⟨hstarted, hsame⟩ := current_startShards hD h ((byShard (p.tokenize text)).map Prod.fst)
    refine ⟨hstarted, ?_⟩
    rintro r hr
    cases hr
    refine ⟨rfl, ?_, ?_⟩
    · have hdocs : (startShards m ((byShard (p.tokenize text)).map Prod.fst)).1.docs = m.docs :=
        congrArg Manifest.docs hsame
      rw [hdocs]
      exact hhash
    · exact fun g hg t ht => hp.tokens text t (mem_of_mem_byShard hg ht)

theorem Later.addPosting {id : String} {shard : Shard} (h : Later p D id shard) {token : String}
    (htoken : Plain token) (doc : ℕ) : Later p D id (addPosting shard token doc) := by
  obtain ⟨hvalid, old, hold, hgrown, hpostings⟩ := h
  refine ⟨valid_addPosting hvalid htoken, old, hold, hgrown.addPosting, ?_⟩
  exact fun t d ht => (posting_addPosting_iff hvalid).mpr (.inl (hpostings t d ht))

theorem Later.addPostings {id : String} {shard : Shard} (h : Later p D id shard)
    {tokens : List String} (htokens : ∀ t ∈ tokens, Plain t) (doc : ℕ) :
    Later p D id (tokens.foldl (fun s t => Search.addPosting s t doc) shard) := by
  induction tokens generalizing shard with
  | nil => exact h
  | cons t tokens ih =>
    exact ih (h.addPosting (htokens t List.mem_cons_self) doc) fun t' ht' =>
      htokens t' (List.mem_cons_of_mem _ ht')

theorem contents_postGroup {docs stored : List ℕ} (h : Contents p D docs stored m)
    {tokens : List String} (htokens : ∀ t ∈ tokens, Plain t) (doc : ℕ) (id : String) (ref : ℕ) :
    Contents p D docs stored (postGroup doc m id tokens ref) := by
  refine ⟨?_, h.loads, h.files, h.fileLoads⟩
  intro e he
  obtain ⟨shard, hshard, hlater⟩ := h.cached e he
  by_cases href : ref = e.2.ref
  · refine ⟨_, ?_, hlater.addPostings htokens doc⟩
    change (m.heap.modify ref _)[e.2.ref]? = _
    rw [List.getElem?_modify, hshard]
    simp only [Option.map_eq_map, Option.map_some, if_pos href]
  · refine ⟨shard, ?_, hlater⟩
    change (m.heap.modify ref _)[e.2.ref]? = _
    rw [List.getElem?_modify, hshard]
    simp only [Option.map_eq_map, Option.map_some, if_neg href]

theorem current_postAll {docs : List (String × ℕ)} (h : Current p D disk m) (hdocs : m.docs = docs)
    {posts : List ((String × List String) × ℕ)} (htokens : ∀ g ∈ posts, ∀ t ∈ g.1.2, Plain t)
    (doc : ℕ) :
    Current p D disk (postAll doc m posts) ∧ (postAll doc m posts).docs = docs ∧
      (postAll doc m posts).next = m.next := by
  induction posts generalizing m with
  | nil => exact ⟨h, hdocs, rfl⟩
  | cons g posts ih =>
    have hgroup := contents_postGroup h.contents (htokens g List.mem_cons_self) doc g.1.1 g.2
    have hlisted : ∀ id ∈ m.shardIds, id ∈ (postGroup doc m g.1.1 g.1.2 g.2).shardIds := by
      intro id hid
      change id ∈ setAdd m.shardIds g.1.1
      unfold setAdd
      split
      · exact hid
      · exact List.mem_append_left _ hid
    have hcontinues := h.continues
    apply ih ⟨hgroup,
      ⟨fun id hid => hlisted id (hcontinues.listed id hid), hcontinues.next_le, hcontinues.keys,
      hcontinues.numbers, hcontinues.below⟩, h.kept⟩ hdocs
    exact fun g' hg' => htokens g' (List.mem_cons_of_mem _ hg')

theorem Contents.of_docs {docs docs' stored : List ℕ} (h : Contents p D docs stored m)
    (hsub : ∀ doc ∈ docs', doc < D.catalog.next → doc ∈ docs) : Contents p D docs' stored m := by
  refine ⟨h.cached, h.loads, ?_, h.fileLoads⟩
  intro ref href
  obtain ⟨files, hfiles, hnames⟩ := h.files ref href
  exact ⟨files, hfiles, fun doc hdoc hlt => hnames doc (hsub doc hdoc hlt) hlt⟩

theorem contents_modifyFiles {docs stored : List ℕ} (h : Contents p D docs stored m)
    {change : FileMap → FileMap}
    (hchange : ∀ files, KeepsNames D docs files → KeepsNames D docs (change files)) (ref : ℕ) :
    Contents p D docs stored { m with fileHeap := m.fileHeap.modify ref change } := by
  refine ⟨h.cached, h.loads, ?_, h.fileLoads⟩
  intro ref' href'
  obtain ⟨files, hfiles, hnames⟩ := h.files ref' href'
  by_cases href : ref = ref'
  · refine ⟨change files, ?_, hchange files hnames⟩
    rw [List.getElem?_modify, hfiles]
    simp only [Option.map_eq_map, Option.map_some, if_pos href]
  · refine ⟨files, ?_, hnames⟩
    rw [List.getElem?_modify, hfiles]
    simp only [Option.map_eq_map, Option.map_some, if_neg href]

theorem current_finishAdd (h : Current p D disk m) {hash : String} {doc : ℕ}
    (hhash : hash ∉ m.docs.map Prod.fst) (hdoc : doc ∉ m.docs.map Prod.snd)
    (hlow : D.catalog.next ≤ doc) (hhigh : doc < m.next) :
    Current p D disk (finishAdd m hash doc) := by
  have hdocs : (finishAdd m hash doc).docs = m.docs ++ [(hash, doc)] := setEntry_of_notMem hhash
  have hnumbers : (finishAdd m hash doc).docs.map Prod.snd = m.docs.map Prod.snd ++ [doc] := by
    rw [hdocs, List.map_append]
    rfl
  -- a new number is none of the disk's
  have hold : ∀ d ∈ (finishAdd m hash doc).docs.map Prod.snd, d < D.catalog.next →
      d ∈ m.docs.map Prod.snd := by
    intro d hd hlt
    rw [hnumbers] at hd
    rcases List.mem_append.mp hd with hd | hd
    · exact hd
    · rw [List.mem_singleton.mp hd] at hlt
      omega
  have hcontinues := h.continues
  refine ⟨?_, ⟨hcontinues.listed, hcontinues.next_le, ?_, ?_, ?_⟩, ?_⟩
  · have hcontents : Contents p D (m.docs.map Prod.snd) disk.catalog.numbers
        (finishAdd m hash doc) :=
      h.contents.congr rfl rfl rfl rfl rfl rfl
    exact hcontents.of_docs hold
  · rw [hdocs, List.map_append]
    exact List.Nodup.append hcontinues.keys (List.nodup_singleton hash) (by simpa using hhash)
  · rw [hnumbers]
    exact List.Nodup.append hcontinues.numbers (List.nodup_singleton doc) (by simpa using hdoc)
  · intro d hd
    rw [hnumbers] at hd
    rcases List.mem_append.mp hd with hd | hd
    · exact hcontinues.below d hd
    · rw [List.mem_singleton.mp hd]
      exact hhigh
  · exact fun d hd hlt => h.kept d (hold d hd hlt) hlt

theorem outcome_resumeAdd (h : Current p D disk m) {hash : String}
    {groups : List (String × List String)} (hhash : hash ∉ m.docs.map Prod.fst)
    (hgroups : ∀ g ∈ groups, ∀ t ∈ g.2, Plain t) (filenames : List String)
    (refs : List ℕ) : Outcome p D disk (resumeAdd m hash groups filenames refs) := by
  have hcontinues := h.continues
  have hnumbered : Current p D disk { m with next := m.next + 1 } :=
    ⟨h.contents.congr rfl rfl rfl rfl rfl rfl,
      ⟨hcontinues.listed, Nat.le_succ_of_le hcontinues.next_le, hcontinues.keys,
      hcontinues.numbers, fun doc hdoc => Nat.lt_succ_of_lt (hcontinues.below doc hdoc)⟩, h.kept⟩
  have hposts : ∀ g ∈ groups.zip refs, ∀ t ∈ g.1.2, Plain t :=
    fun g hg => hgroups g.1 (List.of_mem_zip hg).1
  obtain ⟨hposted, hdocs, hnext⟩ := current_postAll hnumbered rfl hposts m.next
  have hfresh : m.next ∉ m.docs.map Prod.snd :=
    fun hmem => absurd (hcontinues.below m.next hmem) (lt_irrefl _)
  have hhigh : m.next < (postAll m.next { m with next := m.next + 1 } (groups.zip refs)).next := by
    rw [hnext]
    exact Nat.lt_succ_self m.next
  unfold resumeAdd
  dsimp only
  split
  · have hloaded :=
      manifestJSON_loadFiles (postAll m.next { m with next := m.next + 1 } (groups.zip refs))
    refine ⟨current_loadFiles hposted, ?_⟩
    intro r hr
    cases hr
    have hdocs' := (congrArg Manifest.docs hloaded).trans hdocs
    have hnext' := congrArg Manifest.next hloaded
    refine ⟨rfl, ?_, ?_, hcontinues.next_le, ?_⟩
    · rw [show (Memory.loadFiles _).1.docs = m.docs from hdocs']
      exact hhash
    · rw [show (Memory.loadFiles _).1.docs = m.docs from hdocs']
      exact hfresh
    · exact hhigh.trans_eq hnext'.symm
  · refine ⟨?_, fun r hr => (nomatch hr)⟩
    apply current_finishAdd hposted
    · rw [hdocs]
      exact hhash
    · rw [hdocs]
      exact hfresh
    · exact hcontinues.next_le
    · exact hhigh

theorem current_resumeNaming (h : Current p D disk m) {hash : String} {doc : ℕ}
    (hhash : hash ∉ m.docs.map Prod.fst) (hdoc : doc ∉ m.docs.map Prod.snd)
    (hlow : D.catalog.next ≤ doc) (hhigh : doc < m.next) (names : List String) (ref : ℕ) :
    Current p D disk (resumeNaming m hash doc names ref) := by
  have hchange : ∀ files, KeepsNames D (m.docs.map Prod.snd) files →
      KeepsNames D (m.docs.map Prod.snd) (setEntry files doc names) := by
    intro files hfiles d hd hlt
    rw [lookup_setEntry_of_ne (by omega)]
    exact hfiles d hd hlt
  have hcontents : Contents p D (m.docs.map Prod.snd) disk.catalog.numbers
      { m with fileHeap := m.fileHeap.modify ref fun f => setEntry f doc names, filesDirty :=
        true } :=
    (contents_modifyFiles h.contents hchange ref).congr rfl rfl rfl rfl rfl rfl
  have hnamed : Current p D disk
      { m with fileHeap := m.fileHeap.modify ref fun f => setEntry f doc names, filesDirty :=
        true } :=
    ⟨hcontents, h.continues, h.kept⟩
  exact current_finishAdd hnamed hhash hdoc hlow hhigh

theorem outcome_removeNext (h : Current p D disk m) (hashes : List String) : Outcome p D disk
    (removeNext m hashes) := by
  induction hashes with
  | nil => exact ⟨h, fun r hr => (nomatch hr)⟩
  | cons hash rest ih =>
    unfold removeNext
    split
    · exact ih
    · next doc hlookup =>
      have hcontinues := h.continues
      have hsublist : (deleteEntry m.docs hash).Sublist m.docs := List.filter_sublist
      have hsub : ∀ d ∈ (deleteEntry m.docs hash).map Prod.snd, d ∈ m.docs.map Prod.snd :=
        fun d hd => (hsublist.map Prod.snd).subset hd
      have hgone : doc ∉ (deleteEntry m.docs hash).map Prod.snd := by
        intro hmem
        obtain ⟨⟨hash', doc'⟩, he, hdoc⟩ := List.mem_map.mp hmem
        obtain rfl : doc' = doc := hdoc
        obtain ⟨hmem', hne⟩ := List.mem_filter.mp he
        have heq := List.inj_on_of_nodup_map hcontinues.numbers hmem' (mem_of_lookup hlookup) rfl
        cases heq
        simp at hne
      have hremoved : Current p D disk { m with
          docs := deleteEntry m.docs hash
          byDoc := deleteEntry m.byDoc doc
          orphans := m.orphans + 1
          manifestDirty := true } := by
        refine ⟨?_, ⟨hcontinues.listed, hcontinues.next_le,
          hcontinues.keys.sublist (hsublist.map _), hcontinues.numbers.sublist (hsublist.map _),
            fun d hd => hcontinues.below d (hsub d hd)⟩,
          fun d hd => h.kept d (hsub d hd)⟩
        have hcontents := h.contents.of_docs fun d hd _ => hsub d hd
        exact hcontents.congr rfl rfl rfl rfl rfl rfl
      refine ⟨current_loadFiles hremoved, ?_⟩
      intro r hr
      cases hr
      refine ⟨rfl, ?_⟩
      have hdocs := congrArg Manifest.docs (manifestJSON_loadFiles { m with
        docs := deleteEntry m.docs hash
        byDoc := deleteEntry m.byDoc doc
        orphans := m.orphans + 1
        manifestDirty := true })
      change doc ∉ (Memory.loadFiles _).1.docs.map Prod.snd
      rw [show (Memory.loadFiles _).1.docs = deleteEntry m.docs hash from hdocs]
      exact hgone

theorem outcome_resumeRemove (h : Current p D disk m) {doc : ℕ} (hdoc : doc ∉ m.docs.map Prod.snd)
    (rest : List String) (ref : ℕ) : Outcome p D disk (resumeRemove m doc rest ref) := by
  have hchange : ∀ files, KeepsNames D (m.docs.map Prod.snd) files →
      KeepsNames D (m.docs.map Prod.snd) (deleteEntry files doc) := by
    intro files hfiles d hd hlt
    have hne : d ≠ doc := by
      rintro rfl
      exact hdoc hd
    rw [lookup_deleteEntry_of_ne hne]
    exact hfiles d hd hlt
  apply outcome_removeNext
  exact ⟨(contents_modifyFiles h.contents hchange ref).congr rfl rfl rfl rfl rfl rfl, h.continues,
    h.kept⟩

theorem outcome_sealManifest (h : Current p D disk m) {puts : List (String × Bytes)}
    (hputs : LaterPuts p D puts) {files : Option FileMap}
    (hfiles : ∀ f, files = some f → KeepsNames D (m.docs.map Prod.snd) f) :
    Outcome p D disk (sealManifest m puts files) := by
  refine ⟨h, ?_⟩
  intro r hr
  cases hr
  exact ⟨rfl, hputs, hfiles, rfl, h.continues⟩

theorem outcome_sealNext (hp : p.Lawful) (h : Current p D disk m) (ids : List String)
    {puts : List (String × Bytes)} (hputs : LaterPuts p D puts) :
    Outcome p D disk (sealNext m ids puts) := by
  induction ids with
  | nil =>
    unfold sealNext
    split
    · next ref _ href =>
      obtain ⟨files, hfiles, hnames⟩ := h.contents.files ref href
      refine ⟨h, ?_⟩
      intro r hr
      cases hr
      refine ⟨rfl, hputs, ?_⟩
      rw [hfiles]
      exact hnames
    · exact outcome_sealManifest h hputs fun f hf => (nomatch hf)
  | cons id ids ih =>
    unfold sealNext
    split
    · exact ih
    · next hit hlookup =>
      obtain ⟨shard, hshard, hlater⟩ := h.contents.cached _ (mem_of_lookup hlookup)
      refine ⟨⟨⟨?_, h.contents.loads, h.contents.files, h.contents.fileLoads⟩, h.continues, h.kept⟩,
        ?_⟩
      · intro e he
        rcases mem_setEntry he with rfl | ⟨he, -⟩
        · exact ⟨shard, hshard, hlater⟩
        · exact h.contents.cached e he
      · intro r hr
        cases hr
        refine ⟨rfl, ?_⟩
        intro e he
        rcases List.mem_append.mp he with he | he
        · exact hputs e he
        · rw [List.mem_singleton.mp he]
          refine ⟨shard, ?_, hlater⟩
          rw [hshard]
          exact decodeShard_encodeShard hp hlater.1

theorem outcome_beginFlush (hp : p.Lawful) (h : Current p D disk m) : Outcome p D disk
    (beginFlush m) := by
  unfold beginFlush
  split
  · exact outcome_sealNext hp h m.dirty fun e he => absurd he List.not_mem_nil
  · exact ⟨h, fun r hr => (nomatch hr)⟩

theorem mem_of_mem_evictFrom {dirty : List String} {total : ℕ} {es : List (String × Cached)}
    {e : String × Cached} (h : e ∈ Memory.evictFrom dirty total es) : e ∈ es := by
  induction es generalizing total with
  | nil => exact h
  | cons e' es ih =>
    unfold Memory.evictFrom at h
    split at h
    · exact h
    · split at h
      · rcases List.mem_cons.mp h with rfl | h
        · exact List.mem_cons_self
        · exact List.mem_cons_of_mem _ (ih h)
      · exact List.mem_cons_of_mem _ (ih h)

theorem current_finishFlush (h : Current p D disk m) : Current p D disk (finishFlush m) :=
  ⟨⟨fun e he => h.contents.cached e (mem_of_mem_evictFrom he), h.contents.loads, h.contents.files,
    h.contents.fileLoads⟩, h.continues, h.kept⟩

end Changes

section Steps

variable {p : Platform} {D : Storage} {s : System}

theorem TakenOver.current (h : TakenOver p D s) (hidle : s.reloading = false) :
    Current p D s.disk s.memory := by
  have hcontents := h.contents
  unfold System.indexed at hcontents
  rw [if_neg (by rw [hidle]; decide)] at hcontents
  exact ⟨hcontents, h.continues hidle, h.kept hidle⟩

theorem TakenOver.of_outcome (h : TakenOver p D s) {o : Memory × Option Running}
    (ho : Outcome p D s.disk o) (lookups : List Lookup) (queue : List Op) :
    TakenOver p D ⟨s.disk, o.1, lookups, queue, o.2⟩ := by
  have hidle : System.reloading ⟨s.disk, o.1, lookups, queue, o.2⟩ = false := by
    unfold System.reloading
    cases hr : o.2 with
    | none => rfl
    | some r => exact (ho.2 r hr).1
  refine ⟨?_, h.stored, h.storedFiles, fun _ => ho.1.continues, h.storedContinues, fun _ =>
    ho.1.kept, ?_⟩
  · unfold System.indexed
    rw [if_neg (by rw [hidle]; decide)]
    exact ho.1.contents
  · exact fun r hr => (ho.2 r hr).2

theorem Running.Sound.congr {disk : Storage} {m m' : Memory} {r : Running} (h : r.Sound p D disk m)
    (hsame : m'.manifestJSON = m.manifestJSON) : r.Sound p D disk m' := by
  have hnext : m'.next = m.next := congrArg Manifest.next hsame
  have hdocs : m'.docs = m.docs := congrArg Manifest.docs hsame
  have hshards : m'.shardIds = m.shardIds := congrArg Manifest.shards hsame
  revert h
  cases r <;> simp only [Running.Sound, hnext, hdocs, hshards, imp_self]

theorem TakenOver.of_contents (h : TakenOver p D s) {m : Memory}
    (hsame : m.manifestJSON = s.memory.manifestJSON)
    (hcontents : Contents p D s.indexed s.disk.catalog.numbers m) (lookups : List Lookup) :
    TakenOver p D { s with memory := m, lookups := lookups } := by
  have hnext : m.next = s.memory.next := congrArg Manifest.next hsame
  have hdocs : m.docs = s.memory.docs := congrArg Manifest.docs hsame
  have hshards : m.shardIds = s.memory.shardIds := congrArg Manifest.shards hsame
  have hreloading : System.reloading { s with memory := m, lookups := lookups } = s.reloading := rfl
  have hindexed : System.indexed { s with memory := m, lookups := lookups } = s.indexed := by
    unfold System.indexed
    rw [hreloading]
    dsimp only
    rw [hdocs]
  refine ⟨?_, h.stored, h.storedFiles, ?_, h.storedContinues, ?_, fun r hr =>
    (h.running r hr).congr hsame⟩
  · rw [hindexed]
    exact hcontents
  · dsimp only
    rw [hreloading, hnext, hdocs, hshards]
    exact h.continues
  · dsimp only
    rw [hreloading, hdocs]
    exact h.kept

theorem TakenOver.indexed_stored (h : TakenOver p D s) {doc : ℕ} (hdoc : doc ∈ s.indexed)
    (hlt : doc < D.catalog.next) :
    doc ∈ s.disk.catalog.numbers := by
  unfold System.indexed at hdoc
  split at hdoc
  · exact hdoc
  · next hidle => exact h.kept (Bool.eq_false_iff.mpr hidle) doc hdoc hlt

theorem TakenOver.lookup_shard (hD : D.WellFormed p) (h : TakenOver p D s) {m : Memory}
    (lookups : List Lookup)
    (hm : m = s.memory ∨ ∃ id ∈ s.memory.shardIds, m = (s.memory.shard id).1) :
    TakenOver p D { s with memory := m, lookups := lookups } := by
  rcases hm with rfl | ⟨id, hid, rfl⟩
  · exact h.of_contents rfl h.contents lookups
  · exact h.of_contents (manifestJSON_shard s.memory id) (contents_shard hD h.contents fun _ => hid)
      lookups

theorem FileLoad.Sound.mono {docs docs' : List ℕ} {l : FileLoad} (h : l.Sound D docs)
    (hsub : ∀ doc ∈ docs', doc < D.catalog.next → doc ∈ docs) : l.Sound D docs' := by
  cases l with
  | asked => trivial
  | answered record => exact fun doc hdoc hlt => h doc (hsub doc hdoc hlt) hlt
  | opening files => exact fun doc hdoc hlt => h doc (hsub doc hdoc hlt) hlt
  | finished ref => trivial

theorem TakenOver.committed (h : TakenOver p D s) (hidle : s.reloading = false)
    {puts : List (String × Bytes)} {files : Option FileMap} {manifest : Manifest}
    (hr : (Running.committing puts files manifest).Sound p D s.disk s.memory) :
    TakenOver p D
      { s with disk := s.disk.putMany puts files manifest, running := some .committed } := by
  obtain ⟨hputs, hfiles, hdocs, hcontinues⟩ := hr
  have hcurrent := h.current hidle
  have hnumbers : manifest.numbers = s.memory.docs.map Prod.snd := by
    unfold Manifest.numbers
    rw [hdocs]
  have hsub : ∀ doc ∈ manifest.numbers, doc < D.catalog.next → doc ∈ s.disk.catalog.numbers := by
    rw [hnumbers]
    exact hcurrent.kept
  have hcontents := hcurrent.contents
  refine ⟨⟨hcontents.cached, hcontents.loads, hcontents.files, ?_⟩, ?_, ?_, fun _ =>
    hcurrent.continues, hcontinues, ?_, ?_⟩
  · exact fun l hl => (hcontents.fileLoads l hl).mono hsub
  · intro id
    change LaterRecord p D id ((puts.lookup id).or (s.disk.shards id))
    cases hput : puts.lookup id with
    | none => exact h.stored id
    | some record => exact hputs _ (mem_of_lookup hput)
  · change KeepsNames D manifest.numbers ((files.or s.disk.files).getD [])
    cases hf : files with
    | none => exact fun doc hdoc hlt => h.storedFiles doc (hsub doc hdoc hlt) hlt
    | some f => exact hfiles f hf
  · intro _ doc hdoc _
    change doc ∈ manifest.numbers
    rw [hnumbers]
    exact hdoc
  · intro r hr
    cases hr
    trivial

theorem foldl_setEntry {κ ν : Type} [DecidableEq κ] (done rest : List (κ × ν))
    (h : ((done ++ rest).map Prod.fst).Nodup) :
    rest.foldl (fun acc e => setEntry acc e.1 e.2) done = done ++ rest := by
  induction rest generalizing done with
  | nil => rw [List.foldl_nil, List.append_nil]
  | cons e rest ih =>
    have hnew : e.1 ∉ done.map Prod.fst := by
      rw [List.map_append, List.map_cons] at h
      exact fun hold => (List.nodup_append.mp h).2.2 _ hold _ List.mem_cons_self rfl
    rw [List.foldl_cons, setEntry_of_notMem hnew, ih _ (by rw [List.append_assoc]; exact h),
      List.append_assoc]
    rfl

theorem mem_foldl_setAdd {κ : Type} [DecidableEq κ] {rest : List κ} {k : κ} (h : k ∈ rest)
    (done : List κ) :
    k ∈ rest.foldl setAdd done := by
  have hkept : ∀ (l : List κ) (acc : List κ), k ∈ acc → k ∈ l.foldl setAdd acc := by
    intro l
    induction l with
    | nil => exact fun acc hk => hk
    | cons k' l ih =>
      intro acc hk
      apply ih
      unfold setAdd
      split
      · exact hk
      · exact List.mem_append_left _ hk
  induction rest generalizing done with
  | nil => cases h
  | cons k' rest ih =>
    rcases List.mem_cons.mp h with rfl | h
    · have hadded : k ∈ setAdd done k := by
        unfold setAdd
        split
        · assumption
        · exact List.mem_append_right _ (List.mem_singleton_self _)
      exact hkept rest _ hadded
    · exact ih h _

variable {disk : Storage} {m : Memory} {lookups : List Lookup} {queue : List Op}

theorem TakenOver.reopened {manifest : Manifest}
    (h : TakenOver p D ⟨disk, m, lookups, queue, some (.reopening manifest)⟩) :
    TakenOver p D ⟨disk, readManifest m manifest, lookups, queue, none⟩ := by
  obtain ⟨hmanifest, hdocs, hshards⟩ := h.running _ rfl
  dsimp only at hmanifest hdocs hshards
  have hcatalog : disk.catalog = manifest := by
    unfold Storage.catalog
    rw [hmanifest]
    rfl
  have hstored := h.storedContinues
  dsimp only at hstored
  rw [hcatalog] at hstored
  have hread : (readManifest m manifest).docs = manifest.docs := by
    change manifest.docs.foldl (fun docs e => setEntry docs e.1 e.2) m.docs = manifest.docs
    rw [hdocs]
    exact foldl_setEntry [] manifest.docs hstored.keys
  refine ⟨?_, h.stored, h.storedFiles, ?_, h.storedContinues, ?_, fun r hr => (nomatch hr)⟩
  · have hcontents : Contents p D disk.catalog.numbers disk.catalog.numbers
        (readManifest m manifest) :=
      h.contents.congr rfl rfl rfl rfl rfl rfl
    change Contents p D ((readManifest m manifest).docs.map Prod.snd) disk.catalog.numbers _
    rw [hread]
    rw [hcatalog] at hcontents ⊢
    exact hcontents
  · intro _
    change Continues D manifest.next (readManifest m manifest).docs
      (manifest.shards.foldl setAdd m.shardIds)
    rw [hread]
    exact ⟨fun id hid => mem_foldl_setAdd (hstored.listed id hid) _, hstored.next_le, hstored.keys,
      hstored.numbers, hstored.below⟩
  · intro _ doc hdoc _
    change doc ∈ (readManifest m manifest).docs.map Prod.snd at hdoc
    rw [hread] at hdoc
    change doc ∈ disk.catalog.numbers
    rw [hcatalog]
    exact hdoc

theorem TakenOver.forgotten (h : TakenOver p D ⟨disk, m, lookups, queue, some (.reread none)⟩) :
    TakenOver p D ⟨disk, forgetManifest m, lookups, queue, none⟩ := by
  have hmanifest : disk.manifest = none := h.running _ rfl
  have hcatalog : disk.catalog = .empty := by
    unfold Storage.catalog
    rw [hmanifest]
    rfl
  have hstored := h.storedContinues
  dsimp only at hstored
  rw [hcatalog] at hstored
  refine ⟨?_, h.stored, h.storedFiles, fun _ => hstored, h.storedContinues, ?_, fun r hr =>
    (nomatch hr)⟩
  · have hcontents : Contents p D disk.catalog.numbers disk.catalog.numbers (forgetManifest m) :=
      h.contents.congr rfl rfl rfl rfl rfl rfl
    exact hcontents.of_docs fun doc hdoc => absurd hdoc List.not_mem_nil
  · exact fun _ doc hdoc => absurd hdoc List.not_mem_nil

theorem TakenOver.tick (hp : p.Lawful) {r : Running}
    (h : TakenOver p D ⟨disk, m, lookups, queue, some r⟩) :
    TakenOver p D
      ⟨(Search.tick disk m r).1, (Search.tick disk m r).2.1, lookups, queue,
        (Search.tick disk m r).2.2⟩ := by
  have hr := h.running r rfl
  dsimp only at hr
  cases r with
  | adding hash groups filenames waits =>
    have hcurrent := h.current rfl
    unfold Search.tick
    dsimp only
    cases waits.mapM m.result with
    | none => exact h
    | some refs =>
      exact h.of_outcome (outcome_resumeAdd hcurrent hr.1 hr.2 filenames refs) lookups queue
  | naming hash doc names w =>
    have hcurrent := h.current rfl
    obtain ⟨hhash, hdoc, hlow, hhigh⟩ := hr
    unfold Search.tick
    dsimp only
    cases m.fileResult w with
    | none => exact h
    | some ref =>
      have hnamed := current_resumeNaming hcurrent hhash hdoc hlow hhigh names ref
      have hout : Outcome p D disk (resumeNaming m hash doc names ref, none) :=
        ⟨hnamed, fun r hr => (nomatch hr)⟩
      exact h.of_outcome hout lookups queue
  | removing doc rest w =>
    have hcurrent := h.current rfl
    unfold Search.tick
    dsimp only
    cases m.fileResult w with
    | none => exact h
    | some ref => exact h.of_outcome (outcome_resumeRemove hcurrent hr rest ref) lookups queue
  | sealing rest puts =>
    exact h.of_outcome (outcome_sealNext hp (h.current rfl) rest hr) lookups queue
  | sealingFiles puts files =>
    have hfiles : ∀ f, some files = some f → KeepsNames D (m.docs.map Prod.snd) f := by
      intro f hf
      cases hf
      exact hr.2
    exact h.of_outcome (outcome_sealManifest (h.current rfl) hr.1 hfiles) lookups queue
  | sealingManifest puts files manifest =>
    have hout : Outcome p D disk (m, some (.committing puts files manifest)) := by
      refine ⟨h.current rfl, ?_⟩
      intro r hr'
      cases hr'
      exact ⟨rfl, hr⟩
    exact h.of_outcome hout lookups queue
  | committing puts files manifest => exact h.committed rfl hr
  | committed =>
    have hout : Outcome p D disk (finishFlush m, none) :=
      ⟨current_finishFlush (h.current rfl), fun r hr => (nomatch hr)⟩
    exact h.of_outcome hout lookups queue
  | rereading =>
    refine ⟨h.contents, h.stored, h.storedFiles, fun hidle => (nomatch hidle), h.storedContinues,
      fun hidle => (nomatch hidle), ?_⟩
    intro r hr
    cases hr
    rfl
  | reread manifest =>
    cases manifest with
    | none => exact h.forgotten
    | some manifest =>
      have hcontents : Contents p D disk.catalog.numbers disk.catalog.numbers (forgetManifest m) :=
        h.contents.congr rfl rfl rfl rfl rfl rfl
      refine ⟨hcontents, h.stored, h.storedFiles, fun hidle => (nomatch hidle), h.storedContinues,
        fun hidle => (nomatch hidle), ?_⟩
      intro r hr'
      cases hr'
      exact ⟨hr, rfl, rfl⟩
  | reopening manifest => exact h.reopened

theorem TakenOver.reload (h : TakenOver p D ⟨disk, m, lookups, .reload :: queue, none⟩) :
    TakenOver p D ⟨disk, beginReload m, lookups, queue, some .rereading⟩ := by
  have hcontents := h.contents
  refine ⟨⟨fun e he => absurd he List.not_mem_nil, hcontents.loads, fun ref href => (nomatch href),
    hcontents.fileLoads⟩, h.stored, h.storedFiles, fun hidle => (nomatch hidle), h.storedContinues,
      fun hidle => (nomatch hidle), ?_⟩
  intro r hr
  cases hr
  trivial

theorem TakenOver.step (hp : p.Lawful) (hD : D.WellFormed p) (h : TakenOver p D s) {e : Event}
    (hown : ∀ d, e ≠ .other d) :
    TakenOver p D (Search.step p s e) := by
  cases e with
  | call op =>
    exact ⟨h.contents, h.stored, h.storedFiles, h.continues, h.storedContinues, h.kept, h.running⟩
  | start =>
    obtain ⟨disk, m, lookups, queue, running⟩ := s
    cases running with
    | some r => exact h
    | none =>
      cases queue with
      | nil => exact h
      | cons op queue =>
        have hcurrent := h.current rfl
        cases op with
        | add hash text filenames =>
          exact h.of_outcome (outcome_beginAdd hp hD hcurrent hash text filenames) lookups queue
        | remove hashes => exact h.of_outcome (outcome_removeNext hcurrent hashes) lookups queue
        | flush => exact h.of_outcome (outcome_beginFlush hp hcurrent) lookups queue
        | reload => exact h.reload
  | tick =>
    obtain ⟨disk, m, lookups, queue, running⟩ := s
    cases running with
    | none => exact h
    | some r => exact h.tick hp
  | wordHits term => exact h.lookup_shard hD _ (wordHits_memory s.memory p term)
  | filenameHits matches' =>
    exact h.of_contents (manifestJSON_loadFiles s.memory) (contents_loadFiles h.contents) _
  | lookup n =>
    unfold Search.step
    dsimp only
    split
    · exact h
    · exact h.lookup_shard hD _ (stepLookup_memory s.memory _)
  | load n =>
    exact h.of_contents (manifestJSON_stepLoad s.memory p s.disk n)
      (contents_stepLoad h.contents h.stored n) s.lookups
  | fileLoad n =>
    have hcontents := contents_stepFileLoad h.contents h.storedFiles (fun doc => h.indexed_stored) n
    exact h.of_contents (manifestJSON_stepFileLoad s.memory s.disk n) hcontents s.lookups
  | other disk => exact absurd rfl (hown disk)

end Steps

section Fresh

def ShardLoad.held (l : ShardLoad) : Option (Option Bytes) :=
  match l.phase with
  | .answered record => some record
  | .opening record => some (some record)
  | _ => none

def FileLoad.held : FileLoad → Option (Option FileMap)
  | .answered record => some record
  | .opening files => some (some files)
  | _ => none

structure Memory.Fresh (disk : Storage) (m : Memory) : Prop where
  shards : ∀ l ∈ m.loads, ∀ record, l.held = some record → record = disk.shards l.id
  files : ∀ l ∈ m.fileLoads, ∀ record, l.held = some record → record = disk.files

def System.AboutToReload (s : System) : Prop := s.running = none ∧ s.queue.head? = some .reload

variable {p : Platform} {s : System}

theorem laterRecord_self (hdisk : s.disk.WellFormed p) (id : String) : LaterRecord p s.disk id
    (s.disk.shards id) := by
  obtain ⟨shard, hshard, hvalid⟩ := hdisk.opens id
  exact ⟨shard, hshard, hvalid, shard, hshard, .refl shard, fun _ _ hposting => hposting⟩

theorem takenOver_start (hdisk : s.disk.WellFormed p) (hfresh : s.memory.Fresh s.disk)
    (hreload : s.AboutToReload) :
    TakenOver p s.disk (step p s .start) := by
  obtain ⟨disk, m, lookups, queue, running⟩ := s
  obtain ⟨rfl, hqueue⟩ := hreload
  obtain ⟨queue, rfl⟩ := List.head?_eq_some_iff.mp hqueue
  have hcatalog := hdisk.catalog
  refine ⟨⟨fun e he => absurd he List.not_mem_nil, ?_, fun ref href => (nomatch href), ?_⟩,
    laterRecord_self hdisk, fun _ _ _ => rfl, fun hidle => (nomatch hidle),
      ⟨hdisk.listed, le_refl _, hcatalog.keys, hcatalog.numbers, hcatalog.below⟩,
    fun hidle => (nomatch hidle), ?_⟩
  · intro l hl
    have hheld := hfresh.shards l hl
    obtain ⟨id, phase⟩ := l
    have hdiskRecord := laterRecord_self hdisk id
    cases phase with
    | asked => trivial
    | answered record =>
      obtain rfl : record = disk.shards id := hheld record rfl
      exact hdiskRecord
    | opening record =>
      have hrecord : some record = disk.shards id := hheld (some record) rfl
      change LaterRecord p disk id (some record)
      rw [hrecord]
      exact hdiskRecord
    | finished ref => trivial
    | settled ref => trivial
  · intro l hl
    have hheld := hfresh.files l hl
    cases l with
    | asked => trivial
    | answered record =>
      obtain rfl : record = disk.files := hheld record rfl
      exact fun _ _ _ => rfl
    | opening files =>
      have hfiles : some files = disk.files := hheld (some files) rfl
      intro doc _ _
      change List.lookup doc files = (disk.files.getD []).lookup doc
      rw [← hfiles]
      rfl
    | finished ref => trivial
  · intro r hr
    cases hr
    trivial

theorem TakenOver.handedOver {D : Storage} (h : TakenOver p D s) : HandedOver p D s :=
  ⟨h.contents.cached, h.contents.files, h.stored, h.storedFiles⟩

/-- From a reload on that finds no load under way with a record that is older than the disk,
whatever the lookups do: every shard in the cache and on disk is the one that was on disk at the
reload, or that with postings added, and no message that is still indexed has lost its names. -/
theorem reload_keeps (hp : p.Lawful) {s₀ : System} {before : List Event}
    (hreload : (Machine.run (step p) s₀ before).AboutToReload)
    (hdisk : (Machine.run (step p) s₀ before).disk.WellFormed p)
    (hfresh : (Machine.run (step p) s₀ before).memory.Fresh (Machine.run (step p) s₀ before).disk)
    {events : List Event} (hown : ∀ e ∈ events, ∀ d, e ≠ .other d) :
    Machine.Throughout (step p) (HandedOver p (Machine.run (step p) s₀ before).disk)
      (step p (Machine.run (step p) s₀ before) .start) events := by
  generalize Machine.run (step p) s₀ before = s at hreload hdisk hfresh ⊢
  have hstart := takenOver_start hdisk hfresh hreload
  have hall : ∀ (events : List Event) (s' : System), TakenOver p s.disk s' →
      (∀ e ∈ events, ∀ d, e ≠ .other d) →
      Machine.Throughout (step p) (HandedOver p s.disk) s' events := by
    intro events
    induction events with
    | nil => exact fun s' h _ => h.handedOver
    | cons e events ih =>
      intro s' h hown
      exact ⟨h.handedOver, ih _ (h.step hp hdisk (hown e List.mem_cons_self)) fun e' he' =>
        hown e' (List.mem_cons_of_mem _ he')⟩
  exact hall events _ hstart hown

end Fresh

namespace Invoices

def platform : Platform where
  tokenize text :=
    ((text.toList.splitOn ' ').filter fun t => t.all Char.isAlphanum).map String.ofList
  textDecode := ofUtf8

theorem lawful_platform : platform.Lawful := by
  refine ⟨?_, fun t _ => ofUtf8_utf8 t⟩
  intro text t ht
  obtain ⟨cs, hcs, rfl⟩ := List.mem_map.mp ht
  have hletters := (List.mem_filter.mp hcs).2
  unfold Plain
  rw [String.toList_ofList]
  intro hhead
  have hmark := List.all_eq_true.mp hletters byteOrderMark (List.mem_of_head? hhead)
  exact absurd hmark (by decide)

def invoiceIn (docs : List ℕ) : Shard := [("invoice", docs)]

def storage (docs : List (String × ℕ)) : Storage where
  manifest := some ⟨docs.length, docs, ["in"], 0⟩
  shards id := if id = "in" then some (encodeShard (invoiceIn (docs.map Prod.snd))) else none
  files := none

def written : Storage := storage [("one", 0), ("two", 1)]

def opened : System :=
  ⟨storage [("one", 0)], ⟨1, [("one", 0)], [(0, "one")], ["in"], 0, [], [], [], none, false, false,
    [], [], [], []⟩, [], [], none⟩

def readEarly : List Event := [.wordHits "invoice", .load 0, .load 0, .other written, .call .reload]

def askedEarly : List Event := [.wordHits "invoice", .other written, .call .reload]

def takeOver : List Event :=
  [.tick, .tick, .tick, .load 0, .load 0, .load 0, .call (.add "three" "invoice" []), .call .flush,
    .start, .tick, .start, .tick, .tick, .tick]

theorem wellFormed_written : written.WellFormed platform := by
  refine ⟨?_, ?_, ⟨by decide, by decide, by decide⟩⟩
  · intro id
    by_cases hid : id = "in"
    · have hvalid : (invoiceIn [0, 1]).Valid := ⟨by decide, by unfold Plain; decide, by decide⟩
      refine ⟨invoiceIn [0, 1], ?_, hvalid⟩
      have hrecord : written.shards id = some (encodeShard (invoiceIn [0, 1])) := if_pos hid
      unfold Storage.shard
      rw [hrecord]
      exact decodeShard_encodeShard lawful_platform hvalid
    · refine ⟨[], ?_, ⟨List.nodup_nil, fun e he => absurd he List.not_mem_nil, fun e he =>
        absurd he List.not_mem_nil⟩⟩
      have hrecord : written.shards id = none := if_neg hid
      unfold Storage.shard
      rw [hrecord]
      rfl
  · intro id hid
    by_cases hin : id = "in"
    · rw [hin]
      decide
    · exact absurd (if_neg hin) hid

theorem about_to_reload (before : List Event)
    (h : (Machine.run (step platform) opened before).running = none ∧
      (Machine.run (step platform) opened before).queue = [.reload]) :
    (Machine.run (step platform) opened before).AboutToReload := ⟨h.1, by rw [h.2]; rfl⟩

/-- A lookup that has not read the record yet does no harm. -/
theorem posting_kept :
    Machine.Throughout (step platform) (HandedOver platform written)
      (step platform (Machine.run (step platform) opened askedEarly) .start) takeOver := by
  have hdisk : (Machine.run (step platform) opened askedEarly).disk = written := rfl
  have hloads : (Machine.run (step platform) opened askedEarly).memory.loads =
      [⟨"in", .asked⟩] := by decide
  have hfileLoads : (Machine.run (step platform) opened askedEarly).memory.fileLoads = [] := by
    decide
  have hfresh : (Machine.run (step platform) opened askedEarly).memory.Fresh
      (Machine.run (step platform) opened askedEarly).disk := by
    refine ⟨?_, ?_⟩
    · rw [hloads]
      intro l hl record hrecord
      rw [List.mem_singleton.mp hl] at hrecord
      cases hrecord
    · rw [hfileLoads]
      exact fun l hl => absurd hl List.not_mem_nil
  have hreload := about_to_reload askedEarly ⟨by decide, by decide⟩
  have hown : ∀ e ∈ takeOver, ∀ d, e ≠ .other d := by
    intro e he d
    rintro rfl
    simp [takeOver] at he
  have hkept :=
    reload_keeps lawful_platform hreload (by rw [hdisk]; exact wellFormed_written) hfresh hown
  rw [hdisk] at hkept
  exact hkept

theorem stored_at_end :
    (Machine.run (step platform)
      (step platform (Machine.run (step platform) opened readEarly) .start) takeOver).disk.shard
      platform "in" = some (invoiceIn [0, 2]) := by
  with_unfolding_all decide

/-- One that has read it puts the old shard into the cache, and the other tab's message is lost from
the index. -/
theorem posting_lost :
    (Machine.run (step platform) opened readEarly).AboutToReload ∧
      (Machine.run (step platform) opened readEarly).disk = written ∧
      ¬ HandedOver platform written
        (Machine.run (step platform)
          (step platform (Machine.run (step platform) opened readEarly) .start) takeOver) := by
  refine ⟨about_to_reload readEarly ⟨by decide, by decide⟩, rfl, ?_⟩
  intro h
  obtain ⟨shard, hopen, -, old, hold, -, hpostings⟩ := h.stored "in"
  obtain rfl : shard = invoiceIn [0, 2] := Option.some.inj (hopen.symm.trans stored_at_end)
  have hwritten : written.shard platform "in" = some (invoiceIn [0, 1]) := by
    with_unfolding_all decide
  obtain rfl : old = invoiceIn [0, 1] := Option.some.inj (hold.symm.trans hwritten)
  obtain ⟨list, hlist, hdoc⟩ := hpostings "invoice" 1 ⟨[0, 1], List.mem_singleton_self _, by decide⟩
  cases List.mem_singleton.mp hlist
  exact absurd hdoc (by decide)

end Invoices

end Dmcn.Web.Search
