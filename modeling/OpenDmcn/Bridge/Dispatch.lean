import OpenDmcn.Bridge.Listing
import OpenDmcn.Bridge.Outbound

/-! The outbound queue at work (`processPending`, `dispatch`, `runJob` and `attempt` of
`bridge/bridge.go`): one poll loop lists what is queued, claims what is due and hands it to the
workers, and these send it. Every access to the stores, to the retry schedule and to the outbound
handler is a step of its own, and the steps interleave at will. The workers are the jobs that were
taken, in any order, which allows more than the pool of domain workers does. -/

namespace Dmcn.Bridge

open Go

def keyMismatchLifetime : Duration := Duration.hour

def firstRetry : Duration := Duration.minute

def maxRetry : Duration := 6 * Duration.hour

structure RetryState where
  attempts : ℕ
  next : Time

structure RoutedMessage where
  domain : String
  msgID : Fixed 16
  recipient : String

structure RetrySchedule where
  retries : AList fun _ : Fixed 32 => RetryState
  routed : AList fun _ : Fixed 32 => RoutedMessage
  inFlight : Finset (Fixed 32)

namespace RetrySchedule

def due (s : RetrySchedule) (now : Time) (hash : Fixed 32) : Bool :=
  match s.retries.lookup hash with
  | some r => !now.before r.next
  | none => true

def claim (s : RetrySchedule) (now : Time) (hash : Fixed 32) : RetrySchedule × Bool :=
  if hash ∈ s.inFlight ∨ s.due now hash = false then (s, false)
  else ({ s with inFlight := insert hash s.inFlight }, true)

def release (s : RetrySchedule) (hash : Fixed 32) : RetrySchedule :=
  { s with inFlight := s.inFlight.erase hash }

def deferRetry (s : RetrySchedule) (now : Time) (hash : Fixed 32) : RetrySchedule :=
  let r := (s.retries.lookup hash).getD ⟨0, default⟩
  let wait := if r.attempts < 20 then min (firstRetry <<< Int64.ofNat r.attempts) maxRetry
    else maxRetry
  { s with retries := s.retries.insert hash ⟨r.attempts + 1, now.add wait⟩ }

def finished (s : RetrySchedule) (hash : Fixed 32) : RetrySchedule :=
  { s with retries := s.retries.erase hash, routed := s.routed.erase hash }

def note (s : RetrySchedule) (hash : Fixed 32) (r : RoutedMessage) : RetrySchedule :=
  { s with routed := s.routed.insert hash r }

def knownDomain (s : RetrySchedule) (hash : Fixed 32) : Option String :=
  (s.routed.lookup hash).map RoutedMessage.domain

def prune (s : RetrySchedule) (queued : List (Fixed 32)) : RetrySchedule × List RoutedMessage :=
  let left := s.routed.keys.filter (· ∉ queued)
  ({ s with
      retries := (s.retries.keys.filter (· ∉ queued)).foldl (fun m hash => m.erase hash) s.retries
      routed := left.foldl (fun m hash => m.erase hash) s.routed },
    left.filterMap s.routed.lookup)

end RetrySchedule

def ItemSource.inTransit : ItemSource → Bool
  | transit _ => true
  | mailbox _ _ => false

namespace OutboundItem

def load (it : OutboundItem) (body : Option EncryptedEnvelope) : Option EncryptedEnvelope :=
  match it.source with
  | .transit q => some q.envelope
  | .mailbox _ _ => body

def sameEntry (it it' : OutboundItem) : Bool :=
  it.hash = it'.hash ∧ it.source.inTransit = it'.source.inTransit

end OutboundItem

/-- How the attempts at an envelope end: by an answer of SMTP that is final, as a message that was
delivered before, refused for good by the bridge, or given up on. -/
inductive Verdict where
  | delivered | refused | duplicate | dropped | expired
  deriving DecidableEq

def smtpVerdict : Option (PlaintextMessage × Option DeliverError) → Option Verdict
  | some (_, none) => some .delivered
  | some (_, some e) => if e.deferred then none else some .refused
  | none => none

structure BridgeConfig where
  outbound : OutboundConfig
  maxAge : Duration
  /-- `Open`: decrypts an envelope and verifies its signature. -/
  openMessage : EncryptedEnvelope → Option OpenedMessage

def BridgeConfig.lifetime (cfg : BridgeConfig) : OutboundError → Duration
  | .senderKeyMismatch => min cfg.maxAge keyMismatchLifetime
  | _ => cfg.maxAge

structure AttemptResult where
  handler : OutboundHandler
  finished : Bool
  receipt : Option BridgeDeliveryReceipt
  verdicts : List Verdict

def attempt (cfg : BridgeConfig) (w : OutboundSurroundings) (now : Time) (h : OutboundHandler)
    (o : OpenedMessage) (queuedAt : Time) : AttemptResult :=
  let r := send cfg.outbound w h o
  let answered := (smtpVerdict r.delivered).toList
  match r.attempt.receipt, r.attempt.err with
  | none, some err =>
    if r.attempt.retry ∧ now.sub queuedAt < cfg.lifetime err then ⟨r.handler, false, none, answered⟩
    else
      let (handler, receipt) := abandon cfg.outbound w.receiptAt r.handler r.attempt cfg.maxAge
      ⟨handler, true, receipt, answered ++ [if r.attempt.retry then .expired else .dropped]⟩
  | receipt, _ => ⟨r.handler, true, receipt, if answered = [] then [.duplicate] else answered⟩

inductive Ending where
  | decided (notice : Bool)
  | finished (notice : Bool)
  | noticed
  | releasing
  deriving DecidableEq

inductive HoldStage where
  | claimed
  | opening (expired : Bool)
  | opened (expired : Bool) (o : OpenedMessage)
  | noted (expired : Bool) (o : OpenedMessage)
  | expiring (o : OpenedMessage)
  | ending (e : Ending)

inductive PollPhase where
  | idle
  | listing (transit : List OutboundItem)
  | listed (items : List OutboundItem) (complete : Bool)
  | forgetting (gone : List RoutedMessage) (items : List OutboundItem)
  | next (items : List OutboundItem)
  | holds (it : OutboundItem) (stage : HoldStage) (items : List OutboundItem)

inductive JobStage where
  | queued
  | running
  | ending (e : Ending)

structure OutboundJob where
  item : OutboundItem
  opened : OpenedMessage
  stage : JobStage

/-- What the poll loop and the workers share: the stores, the schedule and the handler; and what has
happened so far: the envelopes that were queued, the verdicts, the notices to senders and the
removals. -/
structure Shared where
  stored : List OutboundItem
  schedule : RetrySchedule
  outbound : OutboundHandler
  queued : List OutboundItem
  verdicts : List (Fixed 32 × Verdict)
  notices : List (Fixed 32)
  removed : List (Fixed 32)

structure DispatchRun where
  shared : Shared
  poll : PollPhase
  jobs : List OutboundJob

structure Answers where
  now : Time
  /-- The page of the mailbox, by places in the store, and whether the listing went well. -/
  page : List ℕ
  listed : Bool
  /-- Whether a worker has room for the message. -/
  room : Bool
  body : Option EncryptedEnvelope
  outside : OutboundSurroundings
  /-- Whether the removal goes well. -/
  removes : Bool

inductive DispatchEvent where
  | arrive (it : OutboundItem)
  /-- The relay drops what is stored at a place. -/
  | leave (i : ℕ)
  | poll (a : Answers)
  | worker (i : ℕ) (a : Answers)

namespace Shared

def verdict (s : Shared) (hash : Fixed 32) (vs : List Verdict) : Shared :=
  { s with verdicts := s.verdicts ++ vs.map fun v => (hash, v) }

def endStep (s : Shared) (it : OutboundItem) (removes : Bool) : Ending → Shared × Option Ending
  | .decided notice => ({ s with schedule := s.schedule.finished it.hash }, some (.finished notice))
  | .finished notice =>
    ({ s with notices := if notice then s.notices ++ [it.hash] else s.notices }, some .noticed)
  | .noticed =>
    if removes then
      ({ s with stored := s.stored.filter fun it' => !it.sameEntry it', removed := s.removed ++
        [it.hash] }, some .releasing)
    else (s, some .releasing)
  | .releasing => ({ s with schedule := s.schedule.release it.hash }, none)

end Shared

namespace DispatchRun

variable (cfg : BridgeConfig)

def start (limiter : RateLimiter) : DispatchRun :=
  ⟨⟨[], ⟨∅, ∅, ∅⟩, ⟨limiter, ∅, ∅⟩, [], [], [], []⟩, .idle, []⟩

def holdStep (s : DispatchRun) (a : Answers) (it : OutboundItem) (items : List OutboundItem) :
    HoldStage → DispatchRun
  | .claimed =>
    let expired : Bool := cfg.maxAge ≤ a.now.sub it.queuedAt
    if (s.shared.schedule.knownDomain it.hash).isSome ∧ expired = false ∧ a.room = false then
      { s with poll := .holds it (.ending .releasing) items }
    else { s with poll := .holds it (.opening expired) items }
  | .opening expired =>
    match it.load a.body with
    | none =>
      if a.now.sub it.queuedAt < cfg.maxAge then
        { s with
          shared := { s.shared with schedule := s.shared.schedule.deferRetry a.now it.hash }
          poll := .holds it (.ending .releasing) items }
      else
        { s with
          shared := s.shared.verdict it.hash [.expired]
          poll := .holds it (.ending (.decided false)) items }
    | some env =>
      match cfg.openMessage env with
      | none =>
        { s with
          shared := s.shared.verdict it.hash [.dropped]
          poll := .holds it (.ending (.decided false)) items }
      | some o => { s with poll := .holds it (.opened expired o) items }
  | .opened expired o =>
    let domain := domainOf cfg.outbound.rt.unicode o.plaintext.recipientAddress
    let routed : RoutedMessage := ⟨domain, o.plaintext.messageID, o.plaintext.recipientAddress⟩
    { s with
      shared := { s.shared with schedule := s.shared.schedule.note it.hash routed }
      poll := .holds it (.noted expired o) items }
  | .noted expired o =>
    if a.room then { s with poll := .next items, jobs := s.jobs ++ [⟨it, o, .queued⟩] }
    else if expired then { s with poll := .holds it (.expiring o) items }
    else { s with poll := .holds it (.ending .releasing) items }
  | .expiring o =>
    let (handler, receipt) := abandon cfg.outbound a.now s.shared.outbound
      (expire cfg.outbound a.outside s.shared.outbound o)
      cfg.maxAge
    { s with
      shared := { s.shared with outbound := handler }.verdict it.hash [.expired]
      poll := .holds it (.ending (.decided (shouldNotifySender receipt))) items }
  | .ending e =>
    let (shared, next) := s.shared.endStep it a.removes e
    match next with
    | some e' => { s with shared := shared, poll := .holds it (.ending e') items }
    | none => { s with shared := shared, poll := .next items }

def pollStep (s : DispatchRun) (a : Answers) : DispatchRun :=
  match s.poll with
  | .idle => { s with poll := .listing (s.shared.stored.filter fun it => it.source.inTransit) }
  | .listing transit =>
    let mailbox := s.shared.stored.filter fun it => !it.source.inTransit
    let page := if a.listed then a.page.filterMap fun i => mailbox[i]? else []
    { s with poll := .listed (transit ++ page) a.listed }
  | .listed items complete =>
    if complete then
      let (schedule, gone) := s.shared.schedule.prune (items.map OutboundItem.hash)
      { s with shared := { s.shared with schedule := schedule }, poll := .forgetting gone items }
    else { s with poll := .next items }
  | .forgetting [] items => { s with poll := .next items }
  | .forgetting (r :: gone) items =>
    let key := keyFor cfg.outbound.rt.unicode r.msgID r.recipient
    let handler := { s.shared.outbound with retrying := s.shared.outbound.retrying.forget key }
    { s with shared := { s.shared with outbound := handler }, poll := .forgetting gone items }
  | .next [] => { s with poll := .idle }
  | .next (it :: items) =>
    let (schedule, claimed) := s.shared.schedule.claim a.now it.hash
    if claimed then
      { s with shared := { s.shared with schedule := schedule }, poll := .holds it .claimed items }
    else { s with poll := .next items }
  | .holds it stage items => s.holdStep cfg a it items stage

def workerStep (s : DispatchRun) (i : ℕ) (a : Answers) (job : OutboundJob) : DispatchRun :=
  match job.stage with
  | .queued => { s with jobs := s.jobs.set i { job with stage := .running } }
  | .running =>
    let r := attempt cfg a.outside a.now s.shared.outbound job.opened job.item.queuedAt
    let shared := { s.shared with outbound := r.handler }.verdict job.item.hash r.verdicts
    if r.finished then
      { s with
        shared := shared
        jobs := s.jobs.set i { job with stage := .ending (.decided (shouldNotifySender r.receipt)) }
          }
    else
      { s with
        shared := { shared with schedule := shared.schedule.deferRetry a.now job.item.hash }
        jobs := s.jobs.set i { job with stage := .ending .releasing } }
  | .ending e =>
    let (shared, next) := s.shared.endStep job.item a.removes e
    match next with
    | some e' => { s with shared := shared, jobs := s.jobs.set i { job with stage := .ending e' } }
    | none => { s with shared := shared, jobs := s.jobs.eraseIdx i }

def step (s : DispatchRun) : DispatchEvent → DispatchRun
  | .arrive it =>
    { s with shared :=
      { s.shared with stored := s.shared.stored ++ [it], queued := s.shared.queued ++ [it] } }
  | .leave i => { s with shared := { s.shared with stored := s.shared.stored.eraseIdx i } }
  | .poll a => s.pollStep cfg a
  | .worker i a =>
    match s.jobs[i]? with
    | some job => s.workerStep cfg i a job
    | none => s

end DispatchRun

end Dmcn.Bridge
