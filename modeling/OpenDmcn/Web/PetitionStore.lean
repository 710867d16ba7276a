import OpenDmcn.Identity.Record
import OpenDmcn.Lib.Run

/-! The petition queue (`internal/petition`). A petition that has been assigned an address keeps the
two credentials parked with it, through every other use of the queue and through restarts, until it
is completed or expires. -/

namespace Dmcn

open Go Guard

section Definitions

def Credential.fromProtoBytes (rt : Runtime) (data : Bytes) : Option Credential :=
  (rt.credential.unmarshal data).map Credential.fromProto

structure Petition where
  code : String
  ed25519Public : Bytes
  x25519Public : Fixed 32
  createdAt : Time
  expiresAt : Time
  address : String
  assignedAt : Time
  addressCredential : Option Credential
  routingCredential : Option Credential
  addressCredentialPB : Bytes
  routingCredentialPB : Bytes

namespace Petition

def sigContext : String := "dmcn-petition-v1" ++ String.singleton (Char.ofNat 0)

def assigned (p : Petition) : Bool := p.address != ""

def expired (p : Petition) (now : Time) : Bool := now.after p.expiresAt

def signableBytes (edPub : Bytes) (xPub : Fixed 32) : Bytes := utf8 sigContext ++ edPub ++ xPub.val

def verifyProof (rt : Runtime) (edPub : Bytes) (xPub : Fixed 32) (sig : Bytes) : Bool :=
  edPub.length == Crypto.ed25519PublicKeySize && rt.ed25519Verify edPub (signableBytes edPub xPub)
    sig

def saved (p : Petition) : Petition :=
  { p with addressCredential := none, routingCredential := none }

def rehydrateCredential (rt : Runtime) (pb : Bytes) : Option (Option Credential) :=
  if pb.isEmpty then some none else (Credential.fromProtoBytes rt pb).map some

def rehydrate (rt : Runtime) (p : Petition) : Option Petition := do
  let addressCredential ← rehydrateCredential rt p.addressCredentialPB
  let routingCredential ← rehydrateCredential rt p.routingCredentialPB
  return { p with addressCredential := addressCredential, routingCredential := routingCredential }

def assign (rt : Runtime) (p : Petition) (address : String) (addrCred routeCred : Credential)
    (now : Time) : Petition :=
  { p with
    address := address
    assignedAt := now
    addressCredential := some addrCred
    routingCredential := some routeCred
    addressCredentialPB := rt.credential.marshal addrCred.toProto
    routingCredentialPB := rt.credential.marshal routeCred.toProto }

end Petition

inductive PetitionError where
  | notFound | expired | assigned | queueFull | badProof | noUnusedCode | notSaved
  deriving DecidableEq

structure PetitionStore where
  ttl : Duration
  byCode : List Petition
  file : List Petition

namespace PetitionStore

def maxPending : ℕ := 256

def find (l : List Petition) (code : String) : Option Petition := l.find? fun p => p.code == code

def without (l : List Petition) (code : String) : List Petition := l.filter fun p => p.code != code

def replace (l : List Petition) (p : Petition) : List Petition :=
  l.map fun q => if q.code = p.code then p else q

def saveLocked (s : PetitionStore) (saves : Bool) : PetitionStore :=
  if saves then { s with file := s.byCode.map Petition.saved } else s

def pruneLocked (s : PetitionStore) (now : Time) : PetitionStore :=
  { s with byCode := s.byCode.filter fun p => !p.expired now }

def prune (s : PetitionStore) (now : Time) (saves : Bool) : PetitionStore :=
  if (s.pruneLocked now).byCode.length = s.byCode.length then s.pruneLocked now
  else (s.pruneLocked now).saveLocked saves

def create (rt : Runtime) (s : PetitionStore) (edPub : Bytes) (xPub : Fixed 32) (sig : Bytes)
    (now : Time) (codes : List String) (saves : Bool) :
    PetitionStore × Except PetitionError Petition :=
  if Petition.verifyProof rt edPub xPub sig = false then (s, .error .badProof)
  else
    let s := s.pruneLocked now
    if s.byCode.length ≥ maxPending then (s, .error .queueFull)
    else
      match (codes.take 8).find? fun code => (find s.byCode code).isNone with
      | none => (s, .error .noUnusedCode)
      | some code =>
        let p : Petition := ⟨code, edPub, xPub, now, now.add s.ttl, "", default, none, none, [], []⟩
        ({ s with byCode := s.byCode ++ [p] }.saveLocked saves, if saves then .ok p
          else .error .notSaved)

def drop (s : PetitionStore) (code : String) (saves : Bool) : PetitionStore :=
  { s with byCode := without s.byCode code }.saveLocked saves

def get (s : PetitionStore) (code : String) (now : Time) (saves : Bool) :
    PetitionStore × Except PetitionError Petition :=
  match find s.byCode code with
  | none => (s, .error .notFound)
  | some p => if p.expired now then (s.drop code saves, .error .notFound) else (s, .ok p)

def assign (rt : Runtime) (s : PetitionStore) (code address : String)
    (addrCred routeCred : Credential) (now : Time) (saves : Bool) :
    PetitionStore × Except PetitionError Petition :=
  match find s.byCode code with
  | none => (s, .error .notFound)
  | some p =>
    if p.expired now then (s.drop code saves, .error .expired)
    else if p.assigned then (s, .error .assigned)
    else
      let p := p.assign rt address addrCred routeCred now
      ({ s with byCode := replace s.byCode p }.saveLocked saves, if saves then .ok p
        else .error .notSaved)

def complete (s : PetitionStore) (code : String) (saves : Bool) :
    PetitionStore × Except PetitionError Unit :=
  match find s.byCode code with
  | none => (s, .error .notFound)
  | some _ => (s.drop code saves, if saves then .ok () else .error .notSaved)

def reopen (rt : Runtime) (s : PetitionStore) (now : Time) : PetitionStore :=
  ({ s with byCode := s.file.filterMap (Petition.rehydrate rt) }.pruneLocked now).saveLocked true

end PetitionStore

inductive PetitionEvent where
  | create (edPub : Bytes) (xPub : Fixed 32) (sig : Bytes) (now : Time) (codes : List String)
    (saves : Bool)
  | get (code : String) (now : Time) (saves : Bool)
  | assign (code address : String) (addrCred routeCred : Credential) (now : Time) (saves : Bool)
  | complete (code : String) (saves : Bool)
  | prune (now : Time) (saves : Bool)
  | restart (now : Time)

def PetitionStore.step (rt : Runtime) (s : PetitionStore) : PetitionEvent → PetitionStore
  | .create edPub xPub sig now codes saves => (s.create rt edPub xPub sig now codes saves).1
  | .get code now saves => (s.get code now saves).1
  | .assign code address addrCred routeCred now saves =>
    (s.assign rt code address addrCred routeCred now saves).1
  | .complete code saves => (s.complete code saves).1
  | .prune now saves => s.prune now saves
  | .restart now => s.reopen rt now

def Petition.Waits (p : Petition) : PetitionEvent → Prop
  | .create _ _ _ now _ _ | .get _ now _ | .assign _ _ _ _ now _ | .prune now _ | .restart now =>
    p.expired now = false
  | .complete code _ => code ≠ p.code

structure PetitionStore.Holds (s : PetitionStore) (p : Petition) : Prop where
  queued : find s.byCode p.code = some p
  saved : find s.file p.code = some p.saved

structure Petition.Parked (rt : Runtime) (p : Petition) : Prop where
  assigned : p.assigned = true
  rehydrates : p.saved.rehydrate rt = some p

end Definitions

namespace PetitionStore

section Queue

variable {rt : Runtime} {l : List Petition} {s : PetitionStore} {p q : Petition} {code : String}

theorem code_of_find (h : find l code = some p) : p.code = code := by
  simpa using List.find?_some h

theorem find_filterMap {g : Petition → Option Petition} (h : find l code = some p)
    (hg : g p = some q) (hcode : ∀ a b, g a = some b → b.code = a.code) :
    find (l.filterMap g) code = some q := by
  unfold find at h ⊢
  induction l with
  | nil => cases h
  | cons a l ih =>
    rw [List.find?_cons] at h
    by_cases ha : (a.code == code) = true
    · rw [ha] at h
      obtain rfl := Option.some.inj h
      rw [List.filterMap_cons_some hg, List.find?_cons, hcode _ _ hg, ha]
    · rw [Bool.not_eq_true] at ha
      rw [ha] at h
      cases hga : g a with
      | none =>
        rw [List.filterMap_cons_none hga]
        exact ih h
      | some b =>
        rw [List.filterMap_cons_some hga, List.find?_cons, hcode a b hga, ha]
        exact ih h

theorem find_filter {f : Petition → Bool} (h : find l code = some p) (hf : f p = true) :
    find (l.filter f) code = some p := by
  rw [← List.filterMap_eq_filter]
  apply find_filterMap h (by simp [hf])
  intro a b hab
  rw [Option.guard_eq_some_iff] at hab
  rw [hab.1]

theorem find_without (h : find l code = some p) {other : String} (hne : other ≠ code) :
    find (without l other) code = some p := by
  have hcode := code_of_find h
  exact find_filter h (by simpa [hcode] using hne.symm)

theorem find_map_saved (h : find l code = some p) :
    find (l.map Petition.saved) code = some p.saved := by
  rw [← List.filterMap_eq_map]
  refine find_filterMap (q := p.saved) h rfl ?_
  intro a b hab
  obtain rfl := Option.some.inj hab
  rfl

theorem find_replace (h : find l code = some p) {r : Petition} :
    find (replace l r) code = some (if code = r.code then r else p) := by
  unfold replace
  rw [← List.filterMap_eq_map]
  apply find_filterMap h
  · rw [Function.comp_apply, code_of_find h]
  · intro a b hab
    obtain rfl := Option.some.inj hab
    dsimp only
    split
    · next hcode => exact hcode.symm
    · rfl

theorem holds_saveLocked {saves : Bool} (hqueued : find s.byCode p.code = some p)
    (hsaved : saves = false → find s.file p.code = some p.saved) :
    (s.saveLocked saves).Holds p := by
  unfold saveLocked
  split
  · exact ⟨hqueued, find_map_saved hqueued⟩
  · next hno => exact ⟨hqueued, hsaved (by simpa using hno)⟩

end Queue

section Waiting

variable {rt : Runtime} {s : PetitionStore} {p : Petition} {now : Time} {saves : Bool}

theorem Holds.pruneLocked (h : s.Holds p) (hlive : p.expired now = false) :
    (s.pruneLocked now).Holds p :=
  ⟨find_filter h.queued (by simp [hlive]), h.saved⟩

theorem Holds.drop (h : s.Holds p) {code : String} (hne : code ≠ p.code) :
    (s.drop code saves).Holds p :=
  holds_saveLocked (find_without h.queued hne) fun _ => h.saved

theorem Holds.other (h : s.Holds p) (hlive : p.expired now = false) {code : String} {q : Petition}
    (hfind : find s.byCode code = some q) (hq : q.expired now = true) : code ≠ p.code := by
  rintro rfl
  rw [h.queued, Option.some.injEq] at hfind
  rw [← hfind, hlive] at hq
  cases hq

theorem Holds.create (h : s.Holds p) (hlive : p.expired now = false) {edPub : Bytes}
    {xPub : Fixed 32} {sig : Bytes} {codes : List String} :
    (s.create rt edPub xPub sig now codes saves).1.Holds p := by
  have hkept := h.pruneLocked hlive
  unfold PetitionStore.create
  split
  · exact h
  · dsimp only
    split
    · exact hkept
    · split
      · exact hkept
      · refine holds_saveLocked ?_ fun _ => hkept.saved
        have hfirst := hkept.queued
        unfold find at hfirst ⊢
        rw [List.find?_append, hfirst, Option.some_or]

theorem Holds.get (h : s.Holds p) (hlive : p.expired now = false) {code : String} :
    (s.get code now saves).1.Holds p := by
  unfold PetitionStore.get
  split
  · exact h
  · next q hfind =>
    split
    · next hexpired => exact h.drop (h.other hlive hfind hexpired)
    · exact h

theorem Holds.assign (h : s.Holds p) (hassigned : p.assigned = true) (hlive : p.expired now = false)
    {code address : String} {addrCred routeCred : Credential} :
    (s.assign rt code address addrCred routeCred now saves).1.Holds p := by
  unfold PetitionStore.assign
  split
  · exact h
  · next q hfind =>
    split
    · next hexpired => exact h.drop (h.other hlive hfind hexpired)
    · split
      · exact h
      · next hunassigned =>
        have hne : p.code ≠ q.code := by
          intro hcode
          rw [← code_of_find hfind, ← hcode, h.queued, Option.some.injEq] at hfind
          exact hunassigned (hfind ▸ hassigned)
        have hqueued := find_replace h.queued (r := q.assign rt address addrCred routeCred now)
        have hcode : (q.assign rt address addrCred routeCred now).code = q.code := rfl
        rw [hcode, if_neg hne] at hqueued
        exact holds_saveLocked hqueued fun _ => h.saved

theorem Holds.complete (h : s.Holds p) {code : String} (hne : code ≠ p.code) :
    (s.complete code saves).1.Holds p := by
  unfold PetitionStore.complete
  split
  · exact h
  · exact h.drop hne

theorem Holds.prune (h : s.Holds p) (hlive : p.expired now = false) :
    (s.prune now saves).Holds p := by
  have hkept := h.pruneLocked hlive
  unfold PetitionStore.prune
  split
  · exact hkept
  · exact holds_saveLocked hkept.queued fun _ => hkept.saved

theorem code_of_rehydrate {a b : Petition} (h : a.rehydrate rt = some b) : b.code = a.code := by
  unfold Petition.rehydrate at h
  simp only [Option.bind_eq_bind, Option.bind_eq_some_iff, Option.pure_def, Option.some.injEq] at h
  obtain ⟨-, -, -, -, rfl⟩ := h
  rfl

theorem Holds.reopen (h : s.Holds p) (hparked : p.Parked rt) (hlive : p.expired now = false) :
    (s.reopen rt now).Holds p := by
  have hloaded : find (s.file.filterMap (Petition.rehydrate rt)) p.code = some p :=
    find_filterMap h.saved hparked.rehydrates fun a b => code_of_rehydrate
  refine holds_saveLocked ?_ (by simp)
  exact find_filter hloaded (by simp [hlive])

theorem holds_step {e : PetitionEvent} (hparked : p.Parked rt) (h : s.Holds p) (he : p.Waits e) :
    (s.step rt e).Holds p := by
  cases e with
  | create edPub xPub sig now codes saves => exact h.create he
  | get code now saves => exact h.get he
  | assign code address addrCred routeCred now saves => exact h.assign hparked.assigned he
  | complete code saves => exact h.complete he
  | prune now saves => exact h.prune he
  | restart now => exact h.reopen hparked he

theorem holds_run {events : List PetitionEvent} (hparked : p.Parked rt) (h : s.Holds p)
    (hwaits : ∀ e ∈ events, p.Waits e) : (Machine.run (PetitionStore.step rt) s events).Holds
    p := by
  have halong : Machine.Along (PetitionStore.step rt) (fun _ e => p.Waits e) s events :=
    Machine.along_of_mem fun e he _ => hwaits e he
  have hkept : Machine.Throughout (PetitionStore.step rt) (fun t => t.Holds p) s events :=
    Machine.throughout_of_along h (fun _ _ ht he => holds_step hparked ht he) halong
  exact hkept.last

end Waiting

end PetitionStore

end Dmcn
