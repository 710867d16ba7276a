import Mathlib.Data.List.Basic
import OpenDmcn.Lib.Run

/-! The mail list of one account on one device (`sync/feedSync.ts`, `api/mailboxRest.ts`,
`api/previewCache.ts`), await by await: passes over the relay's change feed, full listings beside
them, deletions, and what is kept on the device. Of a message its hash is modelled, with the key
that it is sealed to. -/

namespace Dmcn.Web.Feed

abbrev Hash := String

abbrev Key := String

structure Account where
  /-- The key of the account, and those that it had before. -/
  own : List Key
  sealedTo : Hash → Key
  /-- It came in after the address that it is for had been retired. -/
  late : Hash → Bool

/-- An entry of the relay's log. `aliases` is a change of the account's list of aliases, here that
it gets one more. -/
inductive Change where
  | stored (h : Hash)
  | deleted (h : Hash)
  | aliases (k : Key)
  | other
  deriving DecidableEq

def keysAt (a : Account) (log : List Change) : List Key :=
  a.own ++ log.filterMap fun c => match c with
    | .aliases k => some k
    | _ => none

def held (log : List Change) (h : Hash) : Bool := .stored h ∈ log ∧ .deleted h ∉ log

structure Item where
  change : Change
  entry : Bool
  deriving DecidableEq

inductive Answer where
  | resync (head : ℕ)
  | events (target : ℕ) (items : List Item) (more : Bool)
  deriving DecidableEq

def itemOf (log : List Change) (c : Change) : Item :=
  ⟨c, match c with
    | .stored h => held log h
    | _ => false⟩

def answerAt (log : List Change) (pos : Option ℕ) (resync : Bool) (n : ℕ) : Answer :=
  match pos, resync with
  | some p, false =>
    let page := (log.drop p).take n
    .events (p + page.length) (page.map (itemOf log)) (p + page.length < log.length)
  | _, _ => .resync log.length

structure Ring where
  keys : List Key
  retired : Bool
  deriving DecidableEq

def keyringFor (a : Account) (log : List Change) (ok : Bool) : Ring :=
  if ok then ⟨keysAt a log, true⟩ else ⟨a.own, false⟩

/-- Where the loop of `applyEvents` is: how many events of the log have been applied, and those left
of the answer. -/
structure Applying where
  cur : ℕ
  items : List Item
  target : ℕ
  more : Bool
  changed : Bool
  deriving DecidableEq

inductive Phase where
  | asked (pos : Option ℕ)
  | answered (answer : Answer)
  | applying (p : Applying)
  /-- For the next event, a message to open: the ring that is being built, if one is. -/
  | ensuring (p : Applying) (h : Hash) (building : Option (Option Ring))
  | decoding (p : Applying) (h : Hash)
  | decrypting (p : Applying) (h : Hash)
  | applied (target : ℕ) (more : Bool) (ticket : ℕ)
  | listing (n head : ℕ)
  /-- In `setFeedPosition`; without `more` at the end of a resync. -/
  | moving (target : ℕ) (more : Option Bool)
  | moved (target : ℕ) (more : Option Bool) (ticket : ℕ)
  deriving DecidableEq

structure Pass where
  page : ℕ
  phase : Phase
  deriving DecidableEq

/-- A listing: the hashes seen, those of the page that it has not got to, and those that the relay
owes it, which have been in the mailbox since it began and have not been on a page. -/
structure Listing where
  seen : List Hash
  pending : List Hash
  last : Bool
  first : Bool
  owed : List Hash
  deriving DecidableEq

inductive ListPhase where
  | keyring (ring : Option Ring)
  | fetching (l : Listing)
  | entering (l : Listing)
  | decoding (l : Listing) (h : Hash)
  | decrypting (l : Listing) (h : Hash)
  | done
  | failed
  deriving DecidableEq

inductive DeletePhase where
  | asked | gone | done
  deriving DecidableEq

structure Client where
  restored : Bool
  rows : List Hash
  /-- The rows whose entry is at hand. -/
  raw : List Hash
  position : Option ℕ
  ring : Option Ring
  knowsRetired : Bool
  writer : Bool
  /-- Writes to the device that are queued, and the number of those that have landed. -/
  saves : List (List Hash × Option ℕ)
  written : ℕ
  pass : Option Pass
  lists : List ListPhase
  /-- The rings that are being built for messages that are opened by their reader (`fetchFull`). -/
  rings : List (Option Ring)
  deletes : List (Hash × DeletePhase)
  deriving DecidableEq

def Client.fresh : Client := ⟨false, [], [], none, none, false, false, [], 0, none, [], [], []⟩

structure System where
  log : List Change
  kept : List Hash × Option ℕ
  client : Client
  deriving DecidableEq

def System.initial : System := ⟨[], ([], none), .fresh⟩

def maxPages : ℕ := 50

def addRow (rows : List Hash) (h : Hash) : List Hash := if h ∈ rows then rows else rows ++ [h]

namespace Client

variable (a : Account) (c : Client)

def emit : Client :=
  if c.knowsRetired then
    { c with
      rows := c.rows.filter fun h => !a.late h
      deletes := c.deletes ++ (c.rows.filter a.late).map fun h => (h, .asked) }
  else c

def save : Client := { c with saves := c.saves ++ [(c.rows, c.position)] }

def persist : Client := if c.writer then c.save else c

def ticket : ℕ := if c.writer then c.written + c.saves.length else 0

def setRing (ring : Ring) : Client := { c with ring := some ring, knowsRetired := ring.retired }

def setPhase (phase : Phase) : Client :=
  { c with pass := c.pass.map fun p => { p with phase := phase } }

def opens (h : Hash) : Bool := c.ring.any fun ring => ring.keys.contains (a.sealedTo h)

def putRow (h : Hash) : Client := { c with rows := addRow c.rows h, raw := addRow c.raw h }

def applyItems (c : Client) (cur target : ℕ) (more : Bool) : Bool → List Item → Client
  | changed, [] =>
    if changed then
      let c := (c.emit a).persist
      c.setPhase (.applied target more c.ticket)
    else c.setPhase (.applied target more 0)
  | changed, ⟨.deleted h, _⟩ :: items =>
    applyItems { c with rows := c.rows.filter (· ≠ h) } (cur + 1) target more
      (changed || h ∈ c.rows) items
  | changed, ⟨.stored h, true⟩ :: items =>
    if h ∈ c.rows then
      applyItems { c with raw := addRow c.raw h } (cur + 1) target more (changed || h ∉ c.raw) items
    else c.setPhase (.ensuring ⟨cur, items, target, more, changed⟩ h
      (if c.ring.isSome then none else some none))
  | changed, _ :: items => applyItems c (cur + 1) target more changed items

/-- The entries of a page up to the next one that has to be opened; at the end of the last page what
has not been seen is pruned. -/
def enterPending (c : Client) (l : Listing) : List Hash → List Hash → Client × ListPhase
  | seen, [] =>
    if l.last then (({ c with rows := c.rows.filter (· ∈ seen) }.emit a).persist, .done)
    else (if l.first then c.emit a else c,
      .fetching { l with seen := seen, pending := [], first := false })
  | seen, h :: rest =>
    if h ∈ c.rows then enterPending { c with raw := addRow c.raw h } l (seen ++ [h]) rest
    else if c.ring = none then enterPending c l (seen ++ [h]) rest
    else (c, .decoding { l with seen := seen ++ [h], pending := rest } h)

def setList (n : ℕ) (phase : ListPhase) : Client := { c with lists := c.lists.set n phase }

def enter (n : ℕ) (l : Listing) : Client :=
  let (c, phase) := c.enterPending a l l.seen l.pending
  c.setList n phase

def tickList (log : List Change) (n : ℕ) : Client :=
  match c.lists[n]? with
  | some (.keyring (some ring)) =>
    (c.setRing ring).setList n (.fetching ⟨[], [], false, true, (log.filterMap fun e => match e with
      | .stored h => some h
      | _ => none).filter (held log)⟩)
  | some (.entering l) => c.enter a n l
  | some (.decoding l h) => if c.opens a h then c.setList n (.decrypting l h) else c.enter a n l
  | some (.decrypting l h) => (c.putRow h).enter a n l
  | _ => c

def applyOn (p : Applying) : Client := c.applyItems a p.cur p.target p.more p.changed p.items

def tickPhase (page : ℕ) : Phase → Client
  | .asked _ => c
  | .answered (.resync head) =>
    { c with lists := c.lists ++ [ListPhase.keyring none] }.setPhase (.listing c.lists.length head)
  | .answered (.events _ [] _) => { c with pass := none }
  | .answered (.events target items more) =>
    let stale := items.any fun i => match i.change with
      | .aliases _ => true
      | _ => false
    { c with ring := if stale then none else c.ring }.setPhase
      (.applying ⟨target - items.length, items, target, more, false⟩)
  | .applying p => c.applyOn a p
  | .ensuring _ _ (some none) => c
  | .ensuring p h (some (some ring)) => (c.setRing ring).setPhase (.decoding p h)
  | .ensuring p h none => if c.ring = none then c.applyOn a { p with cur := p.cur + 1 }
    else c.setPhase (.decoding p h)
  | .decoding p h => if c.opens a h then c.setPhase (.decrypting p h)
    else c.applyOn a { p with cur := p.cur + 1 }
  | .decrypting p h => (c.putRow h).applyOn a { p with cur := p.cur + 1, changed := true }
  | .applied target more ticket => if c.written < ticket then c
    else c.setPhase (.moving target (some more))
  | .listing n head =>
    if c.lists[n]? = some .done then c.setPhase (.moving head none)
    else if c.lists[n]? = some .failed then { c with pass := none }
    else c
  | .moving target more =>
    let c := { c with position := some target }.persist
    c.setPhase (.moved target more c.ticket)
  | .moved target more ticket =>
    if c.written < ticket then c
    else if more = some true ∧ page + 1 < maxPages then
      { c with pass := some ⟨page + 1, .asked (some target)⟩ }
    else { c with pass := none }

def tickPass : Client :=
  match c.pass with
  | none => c
  | some ⟨page, phase⟩ => c.tickPhase a page phase

def setDelete (n : ℕ) (d : Hash × DeletePhase) : Client := { c with deletes := c.deletes.set n d }

def finishDelete (n : ℕ) (h : Hash) : Client :=
  (({ c with rows := c.rows.filter (· ≠ h) }.setDelete n (h, .done)).emit a).persist

def fetchFull (h : Hash) : Client :=
  if c.restored ∧ h ∈ c.rows ∧ h ∉ c.raw then
    { c with raw := c.raw ++ [h], rings := if c.ring = none then c.rings ++ [none] else c.rings }
  else c

def restore (kept : List Hash × Option ℕ) : Client :=
  { c with restored := true, rows := kept.1.foldl addRow c.rows, position := c.position.or kept.2 }

end Client

inductive Event where
  /-- The relay: mail comes in, or is deleted from another device; the account gets an alias;
  something else changes. -/
  | arrives (h : Hash)
  | deletedElsewhere (h : Hash)
  | addAlias (k : Key)
  | otherChange
  /-- The device: the kept rows are read; this instance becomes the one that keeps them; a write
  lands; the tab is gone and a new one starts. -/
  | restore
  | becomeWriter
  | save
  | crash
  | pass
  /-- A pass from a position that is before that of the rows. -/
  | replay (p : ℕ)
  | answer (resync : Bool) (n : ℕ)
  | answerFails
  | passIdentities (ok : Bool)
  | tickPass
  | list
  | listIdentities (n : ℕ) (ok : Bool)
  | page (n : ℕ) (entries : List Hash) (last : Bool)
  | listFails (n : ℕ)
  | tickList (n : ℕ)
  /-- A message is opened: the entry of its row is read from the device; a row is corrected. -/
  | fetchFull (h : Hash)
  | correct
  | ringIdentities (n : ℕ) (ok : Bool)
  | tickRing (n : ℕ)
  | delete (h : Hash)
  | relayDelete (n : ℕ)
  | tickDelete (n : ℕ)

section Step

variable (a : Account)

/-- A page of a listing has messages that are in the mailbox, and the last one leaves nothing out
that the relay owes it. -/
def fairPage (log : List Change) (l : Listing) (entries : List Hash) (last : Bool) : Bool :=
  entries.all (held log) && (!last || l.owed.all fun h => entries.contains h || !held log h)

/-- One event; one that cannot happen now changes nothing. A message is not stored a second time,
and mail comes in for an alias only once the account has it. -/
def step (s : System) : Event → System
  | .arrives h => if .stored h ∈ s.log then s else { s with log := s.log ++ [.stored h] }
  | .deletedElsewhere h => if held s.log h then { s with log := s.log ++ [.deleted h] } else s
  | .addAlias k =>
    if s.log.any (fun c => match c with
      | .stored h => a.sealedTo h = k
      | _ => false) then s
    else { s with log := s.log ++ [.aliases k] }
  | .otherChange => { s with log := s.log ++ [.other] }
  | .restore => if s.client.restored then s else { s with client := s.client.restore s.kept }
  | .becomeWriter =>
    if s.client.restored then { s with client := { s.client with writer := true }.save } else s
  | .save =>
    match s.client.saves with
    | [] => s
    | kept :: saves => { s with kept := kept, client :=
      { s.client with saves := saves, written := s.client.written + 1 } }
  | .crash => { s with client := .fresh }
  | .pass =>
    if s.client.restored ∧ s.client.pass = none then
      { s with client := { s.client with pass := some ⟨0, .asked s.client.position⟩ } }
    else s
  | .replay p =>
    if s.client.restored ∧ s.client.pass = none ∧ s.client.position.any (p ≤ ·) then
      { s with client := { s.client with pass := some ⟨0, .asked (some p)⟩ } }
    else s
  | .answer resync n =>
    match s.client.pass with
    | some ⟨_, .asked pos⟩ =>
      { s with client := s.client.setPhase (.answered (answerAt s.log pos resync n)) }
    | _ => s
  | .answerFails =>
    match s.client.pass with
    | some ⟨_, .asked _⟩ => { s with client := { s.client with pass := none } }
    | _ => s
  | .passIdentities ok =>
    match s.client.pass with
    | some ⟨_, .ensuring p h (some none)⟩ =>
      { s with client := s.client.setPhase (.ensuring p h (some (some (keyringFor a s.log ok)))) }
    | _ => s
  | .tickPass => { s with client := s.client.tickPass a }
  | .list =>
    if s.client.restored then { s with client :=
      { s.client with lists := s.client.lists ++ [ListPhase.keyring none] } } else s
  | .listIdentities n ok =>
    match s.client.lists[n]? with
    | some (.keyring none) =>
      { s with client := s.client.setList n (.keyring (some (keyringFor a s.log ok))) }
    | _ => s
  | .page n entries last =>
    match s.client.lists[n]? with
    | some (.fetching l) =>
      if fairPage s.log l entries last then
        { s with client := s.client.setList n (.entering { l with
          pending := entries, last := last, owed :=
            l.owed.filter fun h => !last && !entries.contains h }) }
      else s
    | _ => s
  | .listFails n =>
    match s.client.lists[n]? with
    | some (.fetching _) => { s with client := s.client.setList n .failed }
    | _ => s
  | .tickList n => { s with client := s.client.tickList a s.log n }
  | .fetchFull h => { s with client := s.client.fetchFull h }
  | .correct => if s.client.restored then { s with client := (s.client.emit a).persist } else s
  | .ringIdentities n ok =>
    match s.client.rings[n]? with
    | some none => { s with client :=
      { s.client with rings := s.client.rings.set n (some (keyringFor a s.log ok)) } }
    | _ => s
  | .tickRing n =>
    match s.client.rings[n]? with
    | some (some ring) =>
      { s with client := { s.client.setRing ring with rings := s.client.rings.eraseIdx n } }
    | _ => s
  | .delete h => { s with client := { s.client with deletes := s.client.deletes ++ [(h, .asked)] } }
  | .relayDelete n =>
    match s.client.deletes[n]? with
    | some (h, .asked) =>
      if .stored h ∈ s.log then
        { s with
          log := if held s.log h then s.log ++ [.deleted h] else s.log
          client := s.client.setDelete n (h, .gone) }
      else s
    | _ => s
  | .tickDelete n =>
    match s.client.deletes[n]? with
    | some (h, .gone) => { s with client := s.client.finishDelete a n h }
    | _ => s

end Step

end Dmcn.Web.Feed
