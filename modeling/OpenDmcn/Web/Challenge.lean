import OpenDmcn.Lib.Run
import OpenDmcn.Lib.Base64
import OpenDmcn.Registry.Service
import OpenDmcn.IdealRuntime

/-! Challenge nonces (`webcore/challenge.go`): one for each key of a store, loaded by a request,
checked while it resolves and verifies, and deleted by key. Nothing holds these steps together, so
requests for one key interleave. -/

namespace Dmcn.Challenge

open Go

section Definitions

/-- `issuedChallenge`, with the number of the `Issue` that stored it. The code keeps no such number;
it tells one issued nonce from another. -/
structure IssuedChallenge where
  nonce : Bytes
  expiresAt : ℕ
  serial : ℕ
  deriving DecidableEq

inductive Service where
  | auth | petition
  deriving DecidableEq

structure Slot where
  service : Service
  key : String
  deriving DecidableEq

structure Config where
  ttl : ℕ
  domain : String

def daemon (domain : String) : Config := ⟨60 * 10 ^ 9, domain⟩

def Config.adminSlot (cfg : Config) : Slot := ⟨.petition, "petition-admin@" ++ cfg.domain⟩

def adminGetContext : String := "dmcn-petition-admin-get-v1" ++ String.singleton (Char.ofNat 0)
def adminAssignContext : String :=
  "dmcn-petition-admin-assign-v1" ++ String.singleton (Char.ofNat 0)

def adminSignableBytes (sigContext : String) (nonce : Bytes) (bound : String) : Bytes :=
  utf8 sigContext ++ nonce ++ utf8 bound

/-- The body of the two requests that prove possession of a key, with what their handlers answer to
no nonce and to a wrong signature. -/
structure Possession where
  address : String
  challengeSignature : String
  noPending : String
  mismatch : String

def handleLoginVerify (address challengeSignature : String) : Possession :=
  ⟨address, challengeSignature, "no pending challenge for address",
    "challenge signature verification failed"⟩

def handleImport (address challengeSignature : String) : Possession :=
  ⟨address, challengeSignature, "no pending import challenge for address",
    "challenge signature does not match the registered identity"⟩

/-- The arguments of `verifyAdmin`: two fields of the request, the context of its handler and what
it binds. -/
structure AdminProof where
  nonceB64 : String
  sigB64 : String
  sigContext : String
  bound : String

inductive Check where
  | possession (p : Possession)
  | admin (p : AdminProof)

structure Refusal where
  status : ℕ
  error : String
  deriving DecidableEq

def Check.slot (cfg : Config) : Check → Slot
  | .possession p => ⟨.auth, p.address⟩
  | .admin _ => cfg.adminSlot

def Check.noPending : Check → Refusal
  | .possession p => ⟨400, p.noPending⟩
  | .admin _ => ⟨401, "no_challenge"⟩

/-- A request. The body of a login, of an import or of a proof that does not decode is `none`. -/
inductive Request where
  | handleLogin (address : Option String)
  | handleImportChallenge (address : Option String)
  | handleAdminChallenge
  | prove (body : Option Possession)
  | verifyAdmin (p : AdminProof)

/-- What a request finds outside the stores when it takes a step: the time that has passed since the
step before, the directory (`none` where the daemon has no lookup), the random source, the sessions,
the domain's root key. -/
structure World where
  elapsed : ℕ
  registryLookup : Option (Except LookupError IdentityRecord)
  random : Option Bytes
  sessionToken : Option String
  rootPub : Option Bytes

/-- Where a request stands: before its first step; before `Issue`; after the load of `Get`; before
the `Delete` of an expired nonce; with a nonce to verify; before the `Delete` that consumes it;
before a session is created; answered. -/
inductive Progress where
  | arrived (r : Request)
  | issuing (slot : Slot)
  | loaded (c : Check) (ch : IssuedChallenge)
  | dropping (c : Check) (ch : IssuedChallenge)
  | resolving (p : Possession) (ch : IssuedChallenge)
  | consuming (c : Check) (ch : IssuedChallenge)
  | creating (ch : IssuedChallenge)
  | refused (r : Refusal)
  | challenged (ch : IssuedChallenge)
  | session (token : String) (ch : IssuedChallenge)
  | admitted (ch : IssuedChallenge)

/-- The stores and the requests; and, which no request reads, how many nonces were issued, the last
one for each key, and those consumed by a request that had loaded them. -/
structure Server where
  now : ℕ
  pending : Slot → Option IssuedChallenge
  requests : ℕ → Progress
  issues : ℕ
  latest : Slot → Option IssuedChallenge
  used : List ℕ

structure Event where
  request : ℕ
  seen : World

def lookupRecord (w : World) : Except Refusal IdentityRecord :=
  match w.registryLookup with
  | none => .error ⟨501, "directory lookup not available"⟩
  | some (.error .notFound) => .error ⟨404, "address is not registered in the directory"⟩
  | some (.error .transient) => .error ⟨502, "could not verify identity in the directory"⟩
  | some (.ok rec) => .ok rec

def verifyPossession (rt : Runtime) (w : World) (p : Possession) (nonce : Bytes) :
    Except Refusal Unit := do
  let rec ← lookupRecord w
  match Base64.decodeString p.challengeSignature with
  | none => .error ⟨400, "invalid signature encoding"⟩
  | some sig =>
    if Crypto.verify rt rec.ed25519Public nonce sig then .ok () else .error ⟨401, p.mismatch⟩

def verifyAdmin (rt : Runtime) (w : World) (p : AdminProof) (want : Bytes) : Except Refusal Unit :=
  match Base64.decodeString p.nonceB64 with
  | none | some [] => .error ⟨400, "invalid nonce encoding"⟩
  | some nonce =>
    match Base64.decodeString p.sigB64 with
    | none => .error ⟨400, "invalid signature encoding"⟩
    | some sig =>
      if nonce ≠ want then .error ⟨401, "stale_challenge"⟩
      else
        match w.rootPub with
        | none => .error ⟨503, "no_root_key"⟩
        | some root =>
          if Crypto.verify rt root (adminSignableBytes p.sigContext nonce p.bound) sig then .ok ()
          else .error ⟨403, "bad_signature"⟩

def beginChallenge (w : World) (missing : String) : Option String → Progress
  | none => .refused ⟨400, "invalid request body"⟩
  | some address =>
    if address = "" then .refused ⟨400, missing⟩
    else
      match lookupRecord w with
      | .error r => .refused r
      | .ok _ => .issuing ⟨.auth, address⟩

def handleLogin (w : World) : Option String → Progress := beginChallenge w "invalid request body"

def handleImportChallenge (w : World) : Option String → Progress :=
  beginChallenge w "address required"

namespace Server

section Step

variable (rt : Runtime) (cfg : Config)

def start (requests : ℕ → Request) : Server where
  now := 0
  pending := fun _ => none
  requests := fun i => .arrived (requests i)
  issues := 0
  latest := fun _ => none
  used := []

def tick (s : Server) (elapsed : ℕ) : Server := { s with now := s.now + elapsed }

def goTo (s : Server) (i : ℕ) (p : Progress) : Server :=
  { s with requests := Function.update s.requests i p }

def issue (s : Server) (i : ℕ) (slot : Slot) (random : Option Bytes) : Server :=
  match random with
  | none => s.goTo i (.refused ⟨500, "failed to generate challenge"⟩)
  | some nonce =>
    let ch : IssuedChallenge := ⟨nonce, s.now + cfg.ttl, s.issues⟩
    { s.goTo i (.challenged ch) with
      pending := Function.update s.pending slot (some ch)
      issues := s.issues + 1
      latest := Function.update s.latest slot (some ch) }

def delete (s : Server) (slot : Slot) : Server :=
  { s with pending := Function.update s.pending slot none }

def consume (s : Server) (slot : Slot) (ch : IssuedChallenge) : Server :=
  { s.delete slot with used := ch.serial :: s.used }

def load (s : Server) (c : Check) : Progress :=
  match s.pending (c.slot cfg) with
  | none => .refused c.noPending
  | some ch => .loaded c ch

def arrive (s : Server) (w : World) : Request → Progress
  | .handleLogin address => handleLogin w address
  | .handleImportChallenge address => handleImportChallenge w address
  | .handleAdminChallenge => .issuing cfg.adminSlot
  | .prove none => .refused ⟨400, "invalid request body"⟩
  | .prove (some p) => s.load cfg (.possession p)
  | .verifyAdmin p => s.load cfg (.admin p)

def checkExpiry (s : Server) (c : Check) (ch : IssuedChallenge) : Progress :=
  if ch.expiresAt < s.now then .dropping c ch
  else
    match c with
    | .possession p => .resolving p ch
    | .admin _ => .consuming c ch

def afterResolve (w : World) (ch : IssuedChallenge) (p : Possession) : Progress :=
  match verifyPossession rt w p ch.nonce with
  | .error r => .refused r
  | .ok () => .consuming (.possession p) ch

def afterConsume (w : World) (ch : IssuedChallenge) : Check → Progress
  | .possession _ => .creating ch
  | .admin p =>
    match verifyAdmin rt w p ch.nonce with
    | .error r => .refused r
    | .ok () => .admitted ch

def advance (s : Server) (i : ℕ) (w : World) : Progress → Server
  | .arrived r => s.goTo i (s.arrive cfg w r)
  | .issuing slot => s.issue cfg i slot w.random
  | .loaded c ch => s.goTo i (s.checkExpiry c ch)
  | .dropping c _ => (s.delete (c.slot cfg)).goTo i (.refused c.noPending)
  | .resolving p ch => s.goTo i (afterResolve rt w ch p)
  | .consuming c ch => (s.consume (c.slot cfg) ch).goTo i (afterConsume rt w ch c)
  | .creating ch =>
    s.goTo i (match w.sessionToken with
      | none => .refused ⟨500, "failed to create session"⟩
      | some token => .session token ch)
  | .refused _ | .challenged _ | .session _ _ | .admitted _ => s

def step (s : Server) (e : Event) : Server :=
  (s.tick e.seen.elapsed).advance rt cfg e.request e.seen (s.requests e.request)

end Step

end Server

def Progress.success : Progress → Option ℕ
  | .session _ ch | .admitted ch => some ch.serial
  | _ => none

namespace Server

def OneSuccess (s : Server) : Prop :=
  ∀ i j n, (s.requests i).success = some n → (s.requests j).success = some n → i = j

/-- The last nonce issued for a key is the one outstanding, unless it has expired or been used. -/
def StaysUsable (s : Server) : Prop :=
  ∀ slot ch, s.latest slot = some ch → s.now ≤ ch.expiresAt → ch.serial ∉ s.used →
    s.pending slot = some ch

def TakesOwn (s : Server) (slot : Slot) (ch : IssuedChallenge) : Prop :=
  ∀ ch' ∈ s.pending slot, ch' = ch ∨ ch'.expiresAt < s.now

instance (s : Server) (slot : Slot) (ch : IssuedChallenge) : Decidable (s.TakesOwn slot ch) :=
  inferInstanceAs (Decidable (∀ ch' ∈ s.pending slot, ch' = ch ∨ ch'.expiresAt < s.now))

/-- If the next step of a request is a `Delete`, it takes away no live nonce but the one the request
has loaded, and no other request has consumed that one. -/
def Undisturbed (cfg : Config) (s : Server) : Progress → Prop
  | .dropping c ch => s.TakesOwn (c.slot cfg) ch
  | .consuming c ch => s.TakesOwn (c.slot cfg) ch ∧ ch.serial ∉ s.used
  | _ => True

instance (cfg : Config) (s : Server) : (p : Progress) → Decidable (s.Undisturbed cfg p)
  | .dropping c ch => inferInstanceAs (Decidable (s.TakesOwn (c.slot cfg) ch))
  | .consuming c ch => inferInstanceAs (Decidable (s.TakesOwn (c.slot cfg) ch ∧ ch.serial ∉ s.used))
  | .arrived _ | .issuing _ | .loaded _ _ | .resolving _ _ | .creating _ | .refused _
  | .challenged _ | .session _ _
  | .admitted _ => isTrue trivial

def InTurn (cfg : Config) (s : Server) (e : Event) : Prop :=
  (s.tick e.seen.elapsed).Undisturbed cfg (s.requests e.request)

instance (cfg : Config) (s : Server) (e : Event) : Decidable (s.InTurn cfg e) :=
  inferInstanceAs (Decidable ((s.tick e.seen.elapsed).Undisturbed cfg (s.requests e.request)))

end Server

end Definitions

section Invariant

open Server

def Progress.passed : Progress → Option ℕ
  | .creating ch | .session _ ch | .admitted ch => some ch.serial
  | _ => none

variable {p : Progress}

theorem Progress.passed_of_success {n : ℕ} (h : p.success = some n) :
    p.passed = some n := by
  cases p with
  | session token ch => exact h
  | admitted ch => exact h
  | _ => cases h

structure Sound (s : Server) : Prop where
  stays : s.StaysUsable
  expired : ∀ i c ch, s.requests i = .dropping c ch → ch.expiresAt < s.now
  once : ∀ i j n, (s.requests i).passed = some n → (s.requests j).passed = some n → i = j
  consumed : ∀ i n, (s.requests i).passed = some n → n ∈ s.used

theorem Sound.oneSuccess {s : Server} (h : Sound s) : s.OneSuccess :=
  fun i j n hi hj => h.once i j n (Progress.passed_of_success hi) (Progress.passed_of_success hj)

theorem sound_start (requests : ℕ → Request) : Sound (start requests) where
  stays := by
    intro slot ch h
    cases h
  expired := by
    intro i c ch h
    cases h
  once := by
    intro i j n h
    cases h
  consumed := by
    intro i n h
    cases h

variable {rt : Runtime} {cfg : Config} {s : Server} {i : ℕ}

theorem goTo_self : (s.goTo i p).requests i = p := Function.update_self ..

theorem goTo_of_ne {j : ℕ} (h : j ≠ i) : (s.goTo i p).requests j = s.requests j :=
  Function.update_of_ne h ..

theorem Sound.tick (h : Sound s) (elapsed : ℕ) : Sound (s.tick elapsed) where
  stays := by
    intro slot ch hlatest hlive hunused
    exact h.stays slot ch hlatest ((Nat.le_add_right s.now elapsed).trans hlive) hunused
  expired := by
    intro i c ch hi
    exact (h.expired i c ch hi).trans_le (Nat.le_add_right s.now elapsed)
  once := h.once
  consumed := h.consumed

theorem Sound.goTo (h : Sound s) (hdrop : ∀ c ch, p = .dropping c ch → ch.expiresAt < s.now)
    (hpassed : ∀ n, p.passed = some n →
      n ∈ s.used ∧ ∀ j, j ≠ i → (s.requests j).passed ≠ some n) :
    Sound (s.goTo i p) where
  stays := h.stays
  expired := by
    intro j c ch hj
    by_cases hji : j = i
    · subst hji
      rw [goTo_self] at hj
      exact hdrop c ch hj
    · rw [goTo_of_ne hji] at hj
      exact h.expired j c ch hj
  once := by
    intro j k n hj hk
    by_cases hji : j = i <;> by_cases hki : k = i
    · rw [hji, hki]
    · rw [hji, goTo_self] at hj
      rw [goTo_of_ne hki] at hk
      exact absurd hk ((hpassed n hj).2 k hki)
    · rw [hki, goTo_self] at hk
      rw [goTo_of_ne hji] at hj
      exact absurd hj ((hpassed n hk).2 j hji)
    · rw [goTo_of_ne hji] at hj
      rw [goTo_of_ne hki] at hk
      exact h.once j k n hj hk
  consumed := by
    intro j n hj
    by_cases hji : j = i
    · rw [hji, goTo_self] at hj
      exact (hpassed n hj).1
    · rw [goTo_of_ne hji] at hj
      exact h.consumed j n hj

theorem Sound.goTo_of_none (h : Sound s) (hdrop : ∀ c ch, p = .dropping c ch → ch.expiresAt < s.now)
    (hpassed : p.passed = none) :
    Sound (s.goTo i p) := by
  refine h.goTo hdrop fun n hn => ?_
  rw [hpassed] at hn
  cases hn

theorem Sound.refuse (h : Sound s) (r : Refusal) : Sound (s.goTo i (.refused r)) :=
  h.goTo_of_none (fun _ _ heq => by cases heq) rfl

theorem Sound.delete (h : Sound s) {slot : Slot}
    (htakes : ∀ ch, s.pending slot = some ch → ch.expiresAt < s.now ∨ ch.serial ∈ s.used) :
    Sound (s.delete slot) where
  stays := by
    intro slot' ch hlatest hlive hunused
    have hpending := h.stays slot' ch hlatest hlive hunused
    by_cases hslot : slot' = slot
    · subst hslot
      rcases htakes ch hpending with hexpired | hused
      · exact absurd hlive (Nat.not_le.mpr hexpired)
      · exact absurd hused hunused
    · exact (Function.update_of_ne hslot _ _).trans hpending
  expired := h.expired
  once := h.once
  consumed := h.consumed

theorem Sound.use (h : Sound s) (n : ℕ) : Sound { s with used := n :: s.used } where
  stays := by
    intro slot ch hlatest hlive hunused
    exact h.stays slot ch hlatest hlive fun hmem => hunused (List.mem_cons_of_mem n hmem)
  expired := h.expired
  once := h.once
  consumed := fun j m hj => List.mem_cons_of_mem n (h.consumed j m hj)

theorem Sound.consume (h : Sound s) {slot : Slot} {ch : IssuedChallenge}
    (htakes : s.TakesOwn slot ch) :
    Sound (s.consume slot ch) := by
  have hused : Sound { s with used := ch.serial :: s.used } := h.use ch.serial
  apply hused.delete
  intro ch' hpending
  rcases htakes ch' hpending with rfl | hexpired
  · exact .inr (List.mem_cons_self ..)
  · exact .inl hexpired

theorem Sound.issue (h : Sound s) (slot : Slot) (random : Option Bytes) :
    Sound (s.issue cfg i slot random) := by
  cases random with
  | none => exact h.refuse _
  | some nonce =>
    have hmoved : Sound (s.goTo i (.challenged ⟨nonce, s.now + cfg.ttl, s.issues⟩)) :=
      h.goTo_of_none (fun _ _ heq => by cases heq) rfl
    refine ⟨?_, hmoved.expired, hmoved.once, hmoved.consumed⟩
    intro slot' ch hlatest hlive hunused
    dsimp only [Server.issue] at hlatest hlive hunused ⊢
    by_cases hslot : slot' = slot
    · rwa [hslot, Function.update_self] at hlatest ⊢
    · rw [Function.update_of_ne hslot] at hlatest ⊢
      exact h.stays slot' ch hlatest hlive hunused

theorem passed_load (c : Check) :
    (s.load cfg c).passed = none ∧ ∀ c' ch, s.load cfg c ≠ .dropping c' ch := by
  unfold Server.load
  split
  · exact ⟨rfl, nofun⟩
  · exact ⟨rfl, nofun⟩

theorem passed_beginChallenge (w : World) (missing : String) (address : Option String) :
    (beginChallenge w missing address).passed = none ∧
      ∀ c ch, beginChallenge w missing address ≠ .dropping c ch := by
  unfold beginChallenge
  split
  · exact ⟨rfl, nofun⟩
  · split
    · exact ⟨rfl, nofun⟩
    · split
      · exact ⟨rfl, nofun⟩
      · exact ⟨rfl, nofun⟩

theorem passed_arrive (w : World) (r : Request) :
    (s.arrive cfg w r).passed = none ∧ ∀ c ch, s.arrive cfg w r ≠ .dropping c ch := by
  cases r with
  | handleLogin address => exact passed_beginChallenge w _ address
  | handleImportChallenge address => exact passed_beginChallenge w _ address
  | handleAdminChallenge => exact ⟨rfl, nofun⟩
  | prove body =>
    cases body with
    | none => exact ⟨rfl, nofun⟩
    | some p => exact passed_load _
  | verifyAdmin p => exact passed_load _

theorem Sound.checkExpiry (h : Sound s) (c : Check) (ch : IssuedChallenge) :
    Sound (s.goTo i (s.checkExpiry c ch)) := by
  unfold Server.checkExpiry
  split
  · next hexpired =>
    refine h.goTo_of_none (fun c' ch' heq => ?_) rfl
    cases heq
    exact hexpired
  · cases c with
    | possession p => exact h.goTo_of_none (fun _ _ heq => by cases heq) rfl
    | admin p => exact h.goTo_of_none (fun _ _ heq => by cases heq) rfl

theorem afterConsume_passed {w : World} {ch : IssuedChallenge} {c : Check} {n : ℕ}
    (h : (afterConsume rt w ch c).passed = some n) : n = ch.serial := by
  unfold afterConsume at h
  split at h
  · exact (Option.some.inj h).symm
  · split at h
    · cases h
    · exact (Option.some.inj h).symm

theorem afterConsume_ne_dropping {w : World} {ch ch' : IssuedChallenge} {c c' : Check} :
    afterConsume rt w ch c ≠ .dropping c' ch' := by
  unfold afterConsume
  split
  · exact nofun
  · split
    · exact nofun
    · exact nofun

theorem Sound.consume_goTo (h : Sound s) {w : World} {c : Check} {ch : IssuedChallenge}
    (htakes : s.TakesOwn (c.slot cfg) ch) (hunused : ch.serial ∉ s.used) :
    Sound ((s.consume (c.slot cfg) ch).goTo i (afterConsume rt w ch c)) := by
  apply (h.consume htakes).goTo
  · intro c' ch' heq
    exact absurd heq afterConsume_ne_dropping
  · intro n hn
    rw [afterConsume_passed hn]
    refine ⟨List.mem_cons_self .., fun j _ hj => ?_⟩
    exact hunused (h.consumed j ch.serial hj)

theorem Sound.create (h : Sound s) {ch : IssuedChallenge} (hi : s.requests i = .creating ch)
    (token : Option String) :
    Sound (s.goTo i (match token with
      | none => .refused ⟨500, "failed to create session"⟩
      | some token => .session token ch)) := by
  cases token with
  | none => exact h.refuse _
  | some token =>
    have hpassed : (s.requests i).passed = some ch.serial := by rw [hi]; rfl
    refine h.goTo (fun _ _ heq => by cases heq) fun n hn => ?_
    obtain rfl : ch.serial = n := Option.some.inj hn
    exact ⟨h.consumed i _ hpassed, fun j hji hj => hji (h.once j i _ hj hpassed)⟩

theorem Sound.advance (h : Sound s) (w : World) (hi : s.requests i = p)
    (hturn : s.Undisturbed cfg p) :
    Sound (s.advance rt cfg i w p) := by
  cases p with
  | arrived r =>
    have harrive : (s.arrive cfg w r).passed = none ∧ ∀ c ch, s.arrive cfg w r ≠ .dropping c ch :=
      passed_arrive w r
    obtain ⟨hpassed, hdrop⟩ := harrive
    exact h.goTo_of_none (fun c ch heq => absurd heq (hdrop c ch)) hpassed
  | issuing slot => exact h.issue slot w.random
  | loaded c ch => exact h.checkExpiry c ch
  | dropping c ch =>
    refine (h.delete fun ch' hpending => ?_).refuse _
    rcases hturn ch' hpending with rfl | hexpired
    · exact .inl (h.expired i c ch' hi)
    · exact .inl hexpired
  | resolving p ch =>
    change Sound (s.goTo i (afterResolve rt w ch p))
    unfold afterResolve
    split
    · exact h.refuse _
    · exact h.goTo_of_none (fun _ _ heq => by cases heq) rfl
  | consuming c ch => exact h.consume_goTo hturn.1 hturn.2
  | creating ch => exact h.create hi w.sessionToken
  | refused r => exact h
  | challenged ch => exact h
  | session token ch => exact h
  | admitted ch => exact h

theorem Sound.step (h : Sound s) (e : Event) (hturn : s.InTurn cfg e) : Sound (s.step rt cfg e) :=
  (h.tick e.seen.elapsed).advance e.seen rfl hturn

/-- In a run whose every `Delete` takes away what its request has loaded, each nonce is good for one
success and is outstanding until it is used, replaced or expired. -/
theorem one_success_of_inTurn (rt : Runtime) (cfg : Config) (requests : ℕ → Request)
    (events : List Event) (hturn : Machine.Along (Server.step rt cfg) (Server.InTurn cfg)
      (Server.start requests) events) :
    Machine.Throughout (Server.step rt cfg) (fun s => s.OneSuccess ∧ s.StaysUsable)
      (Server.start requests) events := by
  have hsound : Machine.Throughout (Server.step rt cfg) Sound (Server.start requests) events :=
    Machine.throughout_of_along (sound_start requests) (fun s e hs he => hs.step e he) hturn
  exact hsound.imp fun s hs => ⟨hs.oneSuccess, hs.stays⟩

end Invariant

namespace Raced

noncomputable def rt : Runtime := idealRuntime [] [(keyOf 7, keyOf 1), (keyOf 7, keyOf 2)]

def cfg : Config := daemon "dmcn.me"

def bob : IdentityRecord where
  version := 1
  address := "bob@dmcn.me"
  ed25519Public := keyOf 7
  x25519Public := .zero 32
  createdAt := default
  expiresAt := default
  relayHints := []
  verificationTier := tierUnverified
  requireOnion := false
  revision := 0
  selfSignature := .zero 64
  addressCredential := none
  routingCredential := none
  operatorCredentials := []
  rotationChain := []
  recoveryEd25519Public := []
  forwardTo := ""

def slot : Slot := ⟨.auth, "bob@dmcn.me"⟩

def signature : String := String.ofList (Base64.encode (List.replicate 64 0))

def requests : ℕ → Request
  | 0 | 1 => .handleLogin (some "bob@dmcn.me")
  | _ => .prove (some (handleLoginVerify "bob@dmcn.me" signature))

def turn (i : ℕ) : Event :=
  ⟨i, 1, some (.ok bob), some (keyOf (UInt8.ofNat (i + 1))), some "token", none⟩

noncomputable abbrev run (schedule : List ℕ) : Server :=
  Machine.run (Server.step rt cfg) (Server.start requests) (schedule.map turn)

def replay : List ℕ := [0, 0, 2, 3, 2, 3, 2, 3, 2, 3, 2, 3]

def overtaken : List ℕ := [0, 0, 2, 2, 2, 1, 1, 2]

/-- One nonce gives two sessions; and a request with an older nonce takes away a newer one, unused
and not expired. -/
theorem replayed_and_lost :
    ((run replay).requests 2).success = some 0 ∧ ((run replay).requests 3).success = some 0 ∧
      (run overtaken).latest slot = some ⟨keyOf 2, 60 * 10 ^ 9 + 7, 1⟩ ∧
      (run overtaken).pending slot = none ∧
      ¬ (run replay).OneSuccess ∧ ¬ (run overtaken).StaysUsable := by
  have htwice : ((run replay).requests 2).success = some 0 ∧ ((run replay).requests 3).success =
      some 0 := by
    decide
  have hlost : (run overtaken).latest slot = some ⟨keyOf 2, 60 * 10 ^ 9 + 7, 1⟩ ∧
      (run overtaken).now ≤ 60 * 10 ^ 9 + 7 ∧ 1 ∉ (run overtaken).used ∧
        (run overtaken).pending slot = none := by
    decide
  obtain ⟨hfirst, hsecond⟩ := htwice
  obtain ⟨hlatest, hlive, hunused, hgone⟩ := hlost
  refine ⟨hfirst, hsecond, hlatest, hgone, fun h => ?_, fun h => ?_⟩
  · exact absurd (h 2 3 0 hfirst hsecond) (by decide)
  · have hpending := h slot _ hlatest hlive hunused
    rw [hgone] at hpending
    cases hpending

/-- One request after the other: a login, its proof, and a second proof that finds no nonce. -/
theorem one_success_of_turns :
    Machine.Throughout (Server.step rt cfg) (fun s => s.OneSuccess ∧ s.StaysUsable)
      (Server.start requests) ([0, 0, 2, 2, 2, 2, 2, 3].map turn) :=
  one_success_of_inTurn rt cfg requests _ (by decide)

end Raced

end Dmcn.Challenge
