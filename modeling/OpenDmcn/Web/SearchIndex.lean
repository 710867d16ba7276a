import OpenDmcn.Web.ShardIndex
import OpenDmcn.Lib.Run

/-! The search index of one tab (`search/indexStore.ts`), await by await: changes run one at a time
in a queue, lookups run beside them, and each loads what it needs into a cache that they share. The
storage is that of the device; another tab may write it too. Records are sealed, so what is read is
what was written, and the storage does not fail. -/

namespace Dmcn.Web.Search

open Go Drafts

abbrev FileMap := List (ℕ × List String)

structure Manifest where
  next : ℕ
  docs : List (String × ℕ)
  shards : List String
  orphans : ℕ
  deriving DecidableEq

def Manifest.empty : Manifest := ⟨0, [], [], 0⟩

structure Storage where
  manifest : Option Manifest
  shards : String → Option Bytes
  files : Option FileMap

structure Cached where
  ref : ℕ
  bytes : ℕ
  deriving DecidableEq

/-- How far a load has got: its read of the storage is asked for, then answered; the record is being
opened; it has a result, which those who wait for it get once it has left `loading`. -/
inductive ShardPhase where
  | asked
  | answered (record : Option Bytes)
  | opening (record : Bytes)
  | finished (ref : ℕ)
  | settled (ref : ℕ)
  deriving DecidableEq

structure ShardLoad where
  id : String
  phase : ShardPhase
  deriving DecidableEq

inductive FileLoad where
  | asked
  | answered (record : Option FileMap)
  | opening (record : FileMap)
  | finished (ref : ℕ)
  deriving DecidableEq

inductive Wait where
  | ready (ref : ℕ)
  | load (n : ℕ)
  deriving DecidableEq

/-- What a tab holds in memory. Objects that are shared are named by their place in `heap` and
`fileHeap`, and loads by theirs in `loads` and `fileLoads`. -/
structure Memory where
  next : ℕ
  docs : List (String × ℕ)
  byDoc : List (ℕ × String)
  shardIds : List String
  orphans : ℕ
  /-- The oldest first. -/
  cache : List (String × Cached)
  loading : List (String × ℕ)
  dirty : List String
  files : Option ℕ
  filesDirty : Bool
  manifestDirty : Bool
  heap : List Shard
  fileHeap : List FileMap
  loads : List ShardLoad
  fileLoads : List FileLoad

def deleteEntry {κ ν : Type} [DecidableEq κ] (m : List (κ × ν)) (k : κ) : List (κ × ν) :=
  m.filter fun e => e.1 ≠ k

def cacheBudget : ℕ := 16 * 1024 * 1024

namespace Memory

variable (m : Memory)

def keep (id : String) (shard : Shard) (bytes : ℕ) : Memory × ℕ :=
  match m.cache.lookup id with
  | some raced => (m, raced.ref)
  | none => ({ m with heap := m.heap ++ [shard], cache := setEntry m.cache id ⟨m.heap.length, bytes⟩
    }, m.heap.length)

def startLoad (id : String) (phase : ShardPhase) : Memory × Wait :=
  ({ m with loads := m.loads ++ [⟨id, phase⟩], loading := setEntry m.loading id m.loads.length },
    .load m.loads.length)

def shard (id : String) : Memory × Wait :=
  match m.cache.lookup id with
  | some hit => ({ m with cache := setEntry (deleteEntry m.cache id) id hit }, .ready hit.ref)
  | none =>
    match m.loading.lookup id with
    | some pending => (m, .load pending)
    | none =>
      if id ∈ m.shardIds then m.startLoad id .asked
      else
        -- there is nothing to read, so the load gets to its end at once
        let (m, ref) := m.keep id [] 0
        m.startLoad id (.finished ref)

def setLoad (n : ℕ) (phase : ShardPhase) : Memory :=
  { m with loads := m.loads.modify n fun l => { l with phase := phase } }

def stepLoad (p : Platform) (disk : Storage) (n : ℕ) : Memory :=
  match m.loads[n]? with
  | none => m
  | some l =>
    match l.phase with
    | .asked => m.setLoad n (.answered (disk.shards l.id))
    | .answered none =>
      let (m, ref) := m.keep l.id [] 0
      m.setLoad n (.finished ref)
    | .answered (some record) => m.setLoad n (.opening record)
    | .opening record =>
      match decodeShard p record with
      | none => m
      | some shard =>
        let (m, ref) := m.keep l.id shard record.length
        m.setLoad n (.finished ref)
    | .finished ref =>
      let m := m.setLoad n (.settled ref)
      { m with loading := deleteEntry m.loading l.id }
    | .settled _ => m

def result : Wait → Option ℕ
  | .ready ref => some ref
  | .load n =>
    match m.loads[n]? with
    | some ⟨_, .settled ref⟩ => some ref
    | _ => none

def loadFiles : Memory × Wait :=
  match m.files with
  | some ref => (m, .ready ref)
  | none => ({ m with fileLoads := m.fileLoads ++ [.asked] }, .load m.fileLoads.length)

def keepFiles (files : FileMap) : Memory × ℕ :=
  match m.files with
  | some ref => (m, ref)
  | none => ({ m with fileHeap := m.fileHeap ++ [files], files := some m.fileHeap.length },
    m.fileHeap.length)

def stepFileLoad (disk : Storage) (n : ℕ) : Memory :=
  let setLoad (m : Memory) (l : FileLoad) : Memory := { m with fileLoads := m.fileLoads.set n l }
  match m.fileLoads[n]? with
  | some .asked => setLoad m (.answered disk.files)
  | some (.answered none) =>
    let (m, ref) := m.keepFiles []
    setLoad m (.finished ref)
  | some (.answered (some files)) => setLoad m (.opening files)
  | some (.opening files) =>
    let (m, ref) := m.keepFiles files
    setLoad m (.finished ref)
  | _ => m

def fileResult : Wait → Option ℕ
  | .ready ref => some ref
  | .load n =>
    match m.fileLoads[n]? with
    | some (.finished ref) => some ref
    | _ => none

def manifestJSON : Manifest := ⟨m.next, m.docs, m.shardIds, m.orphans⟩

def pending : Bool := m.manifestDirty || m.filesDirty || m.dirty.length > 0

def evictFrom (dirty : List String) : ℕ → List (String × Cached) → List (String × Cached)
  | _, [] => []
  | total, e :: es =>
    if total ≤ cacheBudget then e :: es
    else if e.1 ∈ dirty then e :: evictFrom dirty total es
    else evictFrom dirty (total - e.2.bytes) es

def evict : Memory :=
  { m with cache := evictFrom m.dirty (m.cache.map fun e => e.2.bytes).sum m.cache }

end Memory

inductive Op where
  | add (hash text : String) (filenames : List String)
  | remove (hashes : List String)
  | flush
  | reload
  deriving DecidableEq

inductive Running where
  | adding (hash : String) (groups : List (String × List String)) (filenames : List String)
    (waits : List Wait)
  | naming (hash : String) (doc : ℕ) (names : List String) (w : Wait)
  | removing (doc : ℕ) (rest : List String) (w : Wait)
  | sealing (rest : List String) (puts : List (String × Bytes))
  | sealingFiles (puts : List (String × Bytes)) (files : FileMap)
  | sealingManifest (puts : List (String × Bytes)) (files : Option FileMap) (manifest : Manifest)
  | committing (puts : List (String × Bytes)) (files : Option FileMap) (manifest : Manifest)
  | committed
  | rereading
  | reread (manifest : Option Manifest)
  | reopening (manifest : Manifest)
  deriving DecidableEq

section Changes

def startShards (m : Memory) (ids : List String) : Memory × List Wait :=
  ids.foldl (fun acc id => let (m, w) := acc.1.shard id; (m, acc.2 ++ [w])) (m, [])

def beginAdd (p : Platform) (m : Memory) (hash text : String) (filenames : List String) :
    Memory × Option Running :=
  if hash ∈ m.docs.map Prod.fst then (m, none)
  else
    let groups := byShard (p.tokenize text)
    let (m, waits) := startShards m (groups.map Prod.fst)
    (m, some (.adding hash groups filenames waits))

def postGroup (doc : ℕ) (m : Memory) (id : String) (tokens : List String) (ref : ℕ) : Memory :=
  { m with
    heap := m.heap.modify ref fun shard => tokens.foldl (fun s t => addPosting s t doc) shard
    shardIds := setAdd m.shardIds id
    dirty := setAdd m.dirty id }

def postAll (doc : ℕ) (m : Memory) (posts : List ((String × List String) × ℕ)) : Memory :=
  posts.foldl (fun m g => postGroup doc m g.1.1 g.1.2 g.2) m

def finishAdd (m : Memory) (hash : String) (doc : ℕ) : Memory :=
  { m with docs := setEntry m.docs hash doc, byDoc := setEntry m.byDoc doc hash, manifestDirty :=
    true }

def resumeAdd (m : Memory) (hash : String) (groups : List (String × List String))
    (filenames : List String) (refs : List ℕ) :
    Memory × Option Running :=
  let doc := m.next
  let m := postAll doc { m with next := m.next + 1 } (groups.zip refs)
  let names := filenames.filter (· ≠ "")
  if names.length > 0 then
    let (m, w) := m.loadFiles
    (m, some (.naming hash doc names w))
  else (finishAdd m hash doc, none)

def resumeNaming (m : Memory) (hash : String) (doc : ℕ) (names : List String) (ref : ℕ) : Memory :=
  finishAdd { m with fileHeap := m.fileHeap.modify ref fun f => setEntry f doc names, filesDirty :=
    true } hash doc

def removeNext (m : Memory) : List String → Memory × Option Running
  | [] => (m, none)
  | hash :: rest =>
    match m.docs.lookup hash with
    | none => removeNext m rest
    | some doc =>
      let (m, w) := Memory.loadFiles { m with
        docs := deleteEntry m.docs hash
        byDoc := deleteEntry m.byDoc doc
        orphans := m.orphans + 1
        manifestDirty := true }
      (m, some (.removing doc rest w))

def resumeRemove (m : Memory) (doc : ℕ) (rest : List String) (ref : ℕ) : Memory × Option Running :=
  let held := doc ∈ ((m.fileHeap[ref]?).getD []).map Prod.fst
  removeNext { m with
    fileHeap := m.fileHeap.modify ref fun f => deleteEntry f doc
    filesDirty := m.filesDirty || held } rest

def sealManifest (m : Memory) (puts : List (String × Bytes)) (files : Option FileMap) :
    Memory × Option Running :=
  (m, some (.sealingManifest puts files m.manifestJSON))

def sealNext (m : Memory) : List String → List (String × Bytes) → Memory × Option Running
  | [], puts =>
    match m.filesDirty, m.files with
    | true, some ref => (m, some (.sealingFiles puts ((m.fileHeap[ref]?).getD [])))
    | _, _ => sealManifest m puts none
  | id :: rest, puts =>
    match m.cache.lookup id with
    | none => sealNext m rest puts
    | some hit =>
      let bytes := encodeShard ((m.heap[hit.ref]?).getD [])
      ({ m with cache := setEntry m.cache id { hit with bytes := bytes.length } },
        some (.sealing rest (puts ++ [(id, bytes)])))

def beginFlush (m : Memory) : Memory × Option Running :=
  if m.pending then sealNext m m.dirty [] else (m, none)

def Storage.putMany (d : Storage) (puts : List (String × Bytes)) (files : Option FileMap)
    (manifest : Manifest) : Storage where
  manifest := some manifest
  shards id := (puts.lookup id).or (d.shards id)
  files := files.or d.files

def finishFlush (m : Memory) : Memory :=
  Memory.evict { m with dirty := [], filesDirty := false, manifestDirty := false }

def beginReload (m : Memory) : Memory := { m with cache := [], loading := [], files := none }

def forgetManifest (m : Memory) : Memory :=
  { m with docs := [], byDoc := [], shardIds := [], next := 0, orphans := 0 }

def readManifest (m : Memory) (manifest : Manifest) : Memory :=
  { m with
    next := manifest.next
    orphans := manifest.orphans
    docs := manifest.docs.foldl (fun docs e => setEntry docs e.1 e.2) m.docs
    byDoc := manifest.docs.foldl (fun byDoc e => setEntry byDoc e.2 e.1) m.byDoc
    shardIds := manifest.shards.foldl setAdd m.shardIds }

end Changes

/-- A lookup: the loops of `wordHits` at an await, those of `filenameHits`, or the messages that
were found. -/
inductive Lookup where
  | words (t : String) (ids : List String) (found : List ℕ) (docs : Option (List ℕ))
    (rest : List String) (w : Wait)
  | filenames (matches' : String → Bool) (w : Wait)
  | done (hits : List String)

section Lookups

def toHashes (m : Memory) (docs : List ℕ) : List String := docs.filterMap fun d => m.byDoc.lookup d

def idsFor (m : Memory) (t : String) : List String :=
  if t.toList.length ≥ 2 then [shardOf t] else m.shardIds.filter fun id => Strings.hasPrefix id t

def scan (m : Memory) : List String → String → List String → List ℕ → Option (List ℕ) →
    Memory × Lookup
  | rest, t, ids, found, docs =>
    match ids.dropWhile (· ∉ m.shardIds) with
    | id :: ids =>
      let (m, w) := m.shard id
      (m, .words t ids found docs rest w)
    | [] =>
      let docs := match docs with
        | none => found
        | some docs => docs.filter (· ∈ found)
      match rest with
      | [] => (m, .done (toHashes m docs))
      | t :: rest => if docs = [] then (m, .done []) else scan m rest t (idsFor m t) [] (some docs)

def wordHits (p : Platform) (m : Memory) (term : String) : Memory × Lookup :=
  match p.tokenize term with
  | [] => (m, .done [])
  | t :: rest => scan m rest t (idsFor m t) [] none

def filenameHits (m : Memory) (matches' : String → Bool) : Memory × Lookup :=
  let (m, w) := m.loadFiles
  (m, .filenames matches' w)

def stepLookup (m : Memory) : Lookup → Memory × Lookup
  | .words t ids found docs rest w =>
    match m.result w with
    | none => (m, .words t ids found docs rest w)
    | some ref => scan m rest t ids ((prefixDocs ((m.heap[ref]?).getD []) t).foldl setAdd found)
      docs
  | .filenames matches' w =>
    match m.fileResult w with
    | none => (m, .filenames matches' w)
    | some ref =>
      let files := (m.fileHeap[ref]?).getD []
      (m, .done (toHashes m ((files.filter fun e => e.2.any matches').map Prod.fst)))
  | .done hits => (m, .done hits)

end Lookups

structure System where
  disk : Storage
  memory : Memory
  lookups : List Lookup
  queue : List Op
  running : Option Running

inductive Event where
  /-- A change is put into the queue; the next one starts; the one that runs goes on. -/
  | call (op : Op)
  | start
  | tick
  | wordHits (term : String)
  | filenameHits (matches' : String → Bool)
  | lookup (n : ℕ)
  | load (n : ℕ)
  | fileLoad (n : ℕ)
  /-- Another tab commits a transaction. -/
  | other (disk : Storage)

section Step

variable (p : Platform)

def start (m : Memory) : Op → Memory × Option Running
  | .add hash text filenames => beginAdd p m hash text filenames
  | .remove hashes => removeNext m hashes
  | .flush => beginFlush m
  | .reload => (beginReload m, some .rereading)

def tick (disk : Storage) (m : Memory) : Running → Storage × Memory × Option Running
  | .adding hash groups filenames waits =>
    match waits.mapM m.result with
    | none => (disk, m, some (.adding hash groups filenames waits))
    | some refs => (disk, resumeAdd m hash groups filenames refs)
  | .naming hash doc names w =>
    match m.fileResult w with
    | none => (disk, m, some (.naming hash doc names w))
    | some ref => (disk, resumeNaming m hash doc names ref, none)
  | .removing doc rest w =>
    match m.fileResult w with
    | none => (disk, m, some (.removing doc rest w))
    | some ref => (disk, resumeRemove m doc rest ref)
  | .sealing rest puts => (disk, sealNext m rest puts)
  | .sealingFiles puts files => (disk, sealManifest m puts (some files))
  | .sealingManifest puts files manifest => (disk, m, some (.committing puts files manifest))
  | .committing puts files manifest => (disk.putMany puts files manifest, m, some .committed)
  | .committed => (disk, finishFlush m, none)
  | .rereading => (disk, m, some (.reread disk.manifest))
  | .reread none => (disk, forgetManifest m, none)
  | .reread (some manifest) => (disk, forgetManifest m, some (.reopening manifest))
  | .reopening manifest => (disk, readManifest m manifest, none)

def step (s : System) : Event → System
  | .call op => { s with queue := s.queue ++ [op] }
  | .start =>
    match s.running, s.queue with
    | none, op :: queue =>
      let (m, running) := start p s.memory op
      { s with memory := m, running := running, queue := queue }
    | _, _ => s
  | .tick =>
    match s.running with
    | none => s
    | some r =>
      let (disk, m, running) := tick s.disk s.memory r
      { s with disk := disk, memory := m, running := running }
  | .wordHits term =>
    let (m, l) := wordHits p s.memory term
    { s with memory := m, lookups := s.lookups ++ [l] }
  | .filenameHits matches' =>
    let (m, l) := filenameHits s.memory matches'
    { s with memory := m, lookups := s.lookups ++ [l] }
  | .lookup n =>
    match s.lookups[n]? with
    | none => s
    | some l =>
      let (m, l) := stepLookup s.memory l
      { s with memory := m, lookups := s.lookups.set n l }
  | .load n => { s with memory := s.memory.stepLoad p s.disk n }
  | .fileLoad n => { s with memory := s.memory.stepFileLoad s.disk n }
  | .other disk => { s with disk := disk }

end Step

end Dmcn.Web.Search
