import Mathlib.Data.List.Basic
import Mathlib.Logic.Function.Basic
import OpenDmcn.Lib.Run

/-! The flags of messages on one device (`hooks/useFlags.ts`, `api/flagStore.ts`). An edit reads the
record that is cached, puts a whole new record into the store and caches that; a refresh lists the
store and replaces the cache. Edits and refreshes run beside one another, and an edit may be lost to
another that has read the record before it. -/

namespace Dmcn.Web.Flagging

open Machine

abbrev Hash := String

structure Flags where
  read : Option Bool
  archived : Option Bool
  starred : Option Bool
  folderId : Option String
  labelIds : Option (List String)
  trashedAt : Option ℕ
  deriving DecidableEq

structure FlagRecord extends Flags where
  v : ℕ
  updatedAt : ℕ
  deviceId : String
  deriving DecidableEq

structure FlagDelta where
  read : Option (Option Bool)
  archived : Option (Option Bool)
  starred : Option (Option Bool)
  folderId : Option (Option String)
  labelIds : Option (Option (List String))
  trashedAt : Option (Option ℕ)
  deriving DecidableEq

namespace Flags

def none : Flags := ⟨.none, .none, .none, .none, .none, .none⟩

def spread (f : Flags) (d : FlagDelta) : Flags :=
  ⟨d.read.getD f.read, d.archived.getD f.archived, d.starred.getD f.starred,
    d.folderId.getD f.folderId, d.labelIds.getD f.labelIds, d.trashedAt.getD f.trashedAt⟩

end Flags

namespace FlagDelta

def none : FlagDelta := ⟨.none, .none, .none, .none, .none, .none⟩

end FlagDelta

def flagsOf (r : Option FlagRecord) : Flags := r.elim Flags.none FlagRecord.toFlags

def apply (deviceHex : String) (now : ℕ) (current : Option FlagRecord) (delta : FlagDelta) :
    FlagRecord :=
  ⟨(flagsOf current).spread delta, 1, now, deviceHex⟩

inductive Edit where
  | setFlag (h : Hash) (delta : FlagDelta)
  | markRead (h : Hash)
  | addLabel (h : Hash) (labelId : String)
  | removeLabel (h : Hash) (labelId : String)
  deriving DecidableEq

namespace Edit

def hash : Edit → Hash
  | .setFlag h _ | .markRead h | .addLabel h _ | .removeLabel h _ => h

def delta (f : Flags) : Edit → Option FlagDelta
  | .setFlag _ delta => some delta
  | .markRead _ => if f.read = some true then .none
    else some { FlagDelta.none with read := some (some true) }
  | .addLabel _ labelId =>
    let cur := f.labelIds.getD []
    if labelId ∈ cur then .none
      else some { FlagDelta.none with labelIds := some (some (cur ++ [labelId])) }
  | .removeLabel _ labelId =>
    let cur := f.labelIds.getD []
    if labelId ∈ cur then some
      { FlagDelta.none with labelIds := some (some (cur.filter (· ≠ labelId))) } else .none

end Edit

structure Writing where
  hash : Hash
  next : FlagRecord
  put : Bool
  deriving DecidableEq

abbrev Records := Hash → Option FlagRecord

structure Device where
  deviceHex : String
  stored : Records
  cached : Records
  writings : List Writing
  /-- Refreshes, with what they have listed. -/
  refreshes : List (Option Records)

inductive Event where
  | edit (now : ℕ) (e : Edit)
  /-- A write takes effect in the store, and its call returns. -/
  | put (n : ℕ)
  | cache (n : ℕ)
  | refresh
  | list (n : ℕ)
  | replace (n : ℕ)

def step (s : Device) : Event → Device
  | .edit now e =>
    let current := s.cached e.hash
    match e.delta (flagsOf current) with
    | none => s
    | some delta =>
      { s with writings := s.writings ++ [⟨e.hash, apply s.deviceHex now current delta, false⟩] }
  | .put n =>
    match s.writings[n]? with
    | some ⟨h, next, false⟩ =>
      { s with stored := Function.update s.stored h (some next), writings :=
        s.writings.set n ⟨h, next, true⟩ }
    | _ => s
  | .cache n =>
    match s.writings[n]? with
    | some ⟨h, next, true⟩ =>
      { s with cached := Function.update s.cached h (some next), writings := s.writings.eraseIdx n }
    | _ => s
  | .refresh => { s with refreshes := s.refreshes ++ [none] }
  | .list n =>
    match s.refreshes[n]? with
    | some none => { s with refreshes := s.refreshes.set n (some s.stored) }
    | _ => s
  | .replace n =>
    match s.refreshes[n]? with
    | some (some listed) => { s with cached := listed, refreshes := s.refreshes.eraseIdx n }
    | _ => s

def issue (want : Hash → Flags) : Event → Hash → Flags
  | .edit _ e =>
    Function.update want e.hash ((e.delta (want e.hash)).elim (want e.hash) (want e.hash).spread)
  | _ => want

def issued (want : Hash → Flags) (events : List Event) : Hash → Flags := run issue want events

/-- An edit that is issued when no other of its message is under way, and when what is cached of the
message is what is stored. -/
def Alone (s : Device) : Event → Prop
  | .edit _ e => (∀ w ∈ s.writings, w.hash ≠ e.hash) ∧ flagsOf (s.cached e.hash) =
    flagsOf (s.stored e.hash)
  | _ => True

instance (s : Device) : (e : Event) → Decidable (Alone s e)
  | .edit _ _ => inferInstanceAs (Decidable (_ ∧ _))
  | .put _ | .cache _ | .refresh | .list _ | .replace _ => isTrue trivial

section Kept

variable {s : Device} {want : Hash → Flags} {h : Hash}

structure Device.Carries (s : Device) (want : Hash → Flags) : Prop where
  writing : ∀ w ∈ s.writings, w.next.toFlags = want w.hash ∧
    (w.put = true → flagsOf (s.stored w.hash) = want w.hash)
  stored : ∀ h, (∀ w ∈ s.writings, w.hash ≠ h) → flagsOf (s.stored h) = want h

theorem flagsOf_update {r : FlagRecord} (hr : r.toFlags = want h) {h' : Hash}
    (hold : h' ≠ h → flagsOf (s.stored h') = want h') :
    flagsOf (Function.update s.stored h (some r) h') = want h' := by
  by_cases he : h' = h
  · subst he
    rw [Function.update_self]
    exact hr
  · rw [Function.update_of_ne he]
    exact hold he

theorem Device.Carries.edit (hs : s.Carries want) {now : ℕ} {e : Edit}
    (halone : Alone s (.edit now e)) :
    Device.Carries (step s (.edit now e)) (issue want (.edit now e)) := by
  obtain ⟨hnone, hcached⟩ := halone
  have hwant : flagsOf (s.cached e.hash) = want e.hash := hcached.trans (hs.stored e.hash hnone)
  simp only [step, issue, hwant]
  cases hd : e.delta (want e.hash) with
  | none =>
    have hsame : Function.update want e.hash (want e.hash) = want := Function.update_eq_self ..
    simpa only [Option.elim, hsame] using hs
  | some delta =>
    simp only [Option.elim]
    constructor
    · intro w hw
      rcases List.mem_append.mp hw with hold | hnew
      · have hne : w.hash ≠ e.hash := hnone w hold
        rw [Function.update_of_ne hne]
        exact hs.writing w hold
      · rw [List.mem_singleton] at hnew
        subst hnew
        rw [Function.update_self, apply, hwant]
        exact ⟨rfl, fun hput => absurd hput (by simp)⟩
    · intro h hh
      have hne : h ≠ e.hash :=
        fun he => hh _ (List.mem_append_right _ (List.mem_singleton_self _)) he.symm
      rw [Function.update_of_ne hne]
      exact hs.stored h fun w hw => hh w (List.mem_append_left _ hw)

theorem Device.Carries.put (hs : s.Carries want) (n : ℕ) : Device.Carries
    (step s (.put n)) want := by
  rw [step]
  split
  · next h next hn =>
    have hmem : ⟨h, next, false⟩ ∈ s.writings := List.mem_of_getElem? hn
    have hnext : next.toFlags = want h := (hs.writing _ hmem).1
    constructor
    · intro w hw
      rcases List.mem_or_eq_of_mem_set hw with hold | rfl
      · exact ⟨(hs.writing w hold).1, fun hput => flagsOf_update hnext fun _ =>
          (hs.writing w hold).2 hput⟩
      · exact ⟨hnext, fun _ => flagsOf_update hnext fun hne => absurd rfl hne⟩
    · intro h' hh
      apply flagsOf_update hnext
      intro hne
      apply hs.stored
      intro w hw he
      obtain ⟨m, hm⟩ := List.mem_iff_getElem?.mp hw
      -- the one write that has changed is of another message
      have hmn : n ≠ m := by
        rintro rfl
        rw [hn] at hm
        cases hm
        exact hne he.symm
      exact hh w (List.mem_of_getElem? ((List.getElem?_set_ne hmn).trans hm)) he
  · exact hs

theorem Device.Carries.cache (hs : s.Carries want) (n : ℕ) : Device.Carries
    (step s (.cache n)) want := by
  rw [step]
  split
  · next h next hn =>
    have hmem : ⟨h, next, true⟩ ∈ s.writings := List.mem_of_getElem? hn
    refine ⟨fun w hw => hs.writing w (List.mem_of_mem_eraseIdx hw), fun h' hh => ?_⟩
    by_cases he : h' = h
    · subst he
      exact (hs.writing _ hmem).2 rfl
    · apply hs.stored
      intro w hw hhash
      obtain ⟨m, hm⟩ := List.mem_iff_getElem?.mp hw
      have hmn : m ≠ n := by
        rintro rfl
        rw [hn] at hm
        cases hm
        exact he hhash.symm
      exact hh w (List.mem_eraseIdx_iff_getElem?.mpr ⟨m, hmn, hm⟩) hhash
  · exact hs

theorem Device.Carries.step (hs : s.Carries want) {e : Event} (halone : Alone s e) :
    Device.Carries (step s e) (issue want e) := by
  cases e with
  | edit now e => exact hs.edit halone
  | put n => exact hs.put n
  | cache n => exact hs.cache n
  | refresh => exact ⟨hs.writing, hs.stored⟩
  | list n =>
    rw [Flagging.step]
    split
    · exact ⟨hs.writing, hs.stored⟩
    · exact hs
  | replace n =>
    rw [Flagging.step]
    split
    · exact ⟨hs.writing, hs.stored⟩
    · exact hs

theorem Device.Carries.run {events : List Event} (hs : s.Carries want)
    (halone : Along Flagging.step Alone s events) :
    Device.Carries (Machine.run Flagging.step s events) (issued want events) := by
  induction events generalizing s want with
  | nil => exact hs
  | cons e events ih => exact ih (hs.step halone.1) halone.2

end Kept

def Settled (s : Device) (want : Hash → Flags) : Prop :=
  s.writings = [] → ∀ h, flagsOf (s.stored h) = want h

/-- Where each edit is alone, the store has the last value of each field once all edits have
returned. -/
theorem edits_kept (s : Device) (events : List Event) (hstart : s.writings = [])
    (halone : Along step Alone s events) :
    Settled (run step s events) (issued (fun h => flagsOf (s.stored h)) events) := by
  have hcarries : s.Carries fun h => flagsOf (s.stored h) :=
    ⟨fun w hw => absurd hw (by simp [hstart]), fun _ _ => rfl⟩
  intro hdone h
  apply (hcarries.run halone).stored
  intro w hw
  exact absurd hw (by simp [hdone])

namespace Opened

def device : Device := ⟨"d1", fun _ => none, fun _ => none, [], []⟩

def star : Edit := .setFlag "mail" { FlagDelta.none with starred := some (some true) }

def inTurn : List Event := [.edit 1 (.markRead "mail"), .put 0, .cache 0, .refresh, .edit 2 star,
    .list 0, .put 0, .cache 0]

def atOnce : List Event :=
  [.edit 1 (.markRead "mail"), .edit 2 star, .put 0, .put 1, .cache 0, .cache 0]

theorem kept_in_turn : Settled (run step device inTurn) (issued (fun _ => Flags.none) inTurn) :=
  edits_kept device inTurn rfl (by decide)

theorem read_lost_at_once :
    ¬ ∀ (s : Device) (events : List Event), s.writings = [] →
      Settled (run step s events) (issued (fun h => flagsOf (s.stored h)) events) := by
  intro h
  have hread := congrArg Flags.read (h device atOnce rfl (by decide) "mail")
  exact absurd hread (by decide)

-- A listing from before an edit is over brings the old record back, and the next edit writes it.
example :
    let events := [.refresh, .list 0, .edit 1 (.markRead "mail"), .put 0, .cache 0, .replace 0,
      .edit 2 star, .put 0, .cache 0]
    (flagsOf ((run step device events).stored "mail")).read = none := by
  decide

end Opened

end Dmcn.Web.Flagging
