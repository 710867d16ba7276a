import OpenDmcn.IdealRuntime
import OpenDmcn.Web.PetitionStore

/-! The petition queue over whole runs (`petition/petition.go`): every operation and every restart,
where any save may fail. Each operation edits the queue before it saves it, so a save that fails
leaves a queue that is not the one of the file. -/

namespace Go.Time

theorem nanos_add {t : Time} {d : Duration} (hd : 0 ≤ d.toInt) (ht : t.sec.toInt ≤ 315537897599)
    (hlow : 0 ≤ t.sec.toInt) : (t.add d).nanos = t.nanos + d.toInt := by
  have hmax := d.toInt_lt
  have hsec : (t.add d).sec.toInt = t.sec.toInt + ((t.nsec.val : ℤ) + d.toInt) / 1000000000 := by
    change (addSec _ _).toInt = _
    unfold addSec
    rw [if_neg (by omega), if_neg (by omega), Int64.toInt_ofInt_of_le (by omega) (by omega)]
  have hnsec : ((t.add d).nsec.val : ℤ) = ((t.nsec.val : ℤ) + d.toInt) % 1000000000 :=
    Int.toNat_of_nonneg (by omega)
  simp only [nanos, hsec, hnsec]
  omega

end Go.Time

namespace Dmcn.PetitionQueue

open Go PetitionStore

section Operations

def defaultTTL : Duration := 24 * Duration.hour

def findByKey (s : PetitionStore) (edPub : Bytes) (now : Time) (pick : ℕ) :
    PetitionStore × Option Petition :=
  let s := s.pruneLocked now
  let filed := s.byCode.filter fun p => p.ed25519Public == edPub
  (s, filed[pick % filed.length]?)

def pending (s : PetitionStore) (now : Time) : PetitionStore × ℕ :=
  let s := s.pruneLocked now
  (s, s.byCode.length)

def prune (s : PetitionStore) (now : Time) (saves : Bool) :
    PetitionStore × Except PetitionError ℕ :=
  let n := s.byCode.length - (s.pruneLocked now).byCode.length
  (s.prune now saves, if n = 0 ∨ saves = true then .ok n else .error .notSaved)

def newStore (rt : Runtime) (s : PetitionStore) (ttl : Duration) (now : Time) (saves : Bool) :
    PetitionStore × Except PetitionError Unit :=
  let loaded : PetitionStore :=
    ⟨if ttl ≤ 0 then defaultTTL else ttl, s.file.filterMap (Petition.rehydrate rt), s.file⟩
  ((loaded.pruneLocked now).saveLocked saves, if saves then .ok () else .error .notSaved)

end Operations

/-- What is done with the queue; `saves` says whether a save that is tried succeeds. -/
inductive Use where
  | create (edPub : Bytes) (xPub : Fixed 32) (sig : Bytes) (now : Time) (codes : List String)
    (saves : Bool)
  | get (code : String) (now : Time) (saves : Bool)
  | findByKey (edPub : Bytes) (now : Time) (pick : ℕ)
  | assign (code address : String) (addrCred routeCred : Credential) (now : Time) (saves : Bool)
  | complete (code : String) (saves : Bool)
  | prune (now : Time) (saves : Bool)
  | pending (now : Time)
  | restart (ttl : Duration) (now : Time) (saves : Bool)

inductive Answer where
  | petition (p : Petition)
  | absent
  | count (n : ℕ)
  | done
  | failed (e : PetitionError)

namespace Answer

def ofPetition : Except PetitionError Petition → Answer
  | .ok p => .petition p
  | .error e => .failed e

def ofCount : Except PetitionError ℕ → Answer
  | .ok n => .count n
  | .error e => .failed e

def ofUnit : Except PetitionError Unit → Answer
  | .ok () => .done
  | .error e => .failed e

def ofFound : Option Petition → Answer
  | some p => .petition p
  | none => .absent

theorem eq_of_ofFound {found : Option Petition} {p : Petition} (h : ofFound found = .petition p) :
    found = some p := by
  cases found with
  | none => exact nomatch h
  | some q => rw [petition.inj h]

theorem ofCount_ne {n : Except PetitionError ℕ} {p : Petition} : ofCount n ≠ .petition p := by
  cases n with
  | error e => exact fun h => nomatch h
  | ok n => exact fun h => nomatch h

def reports : Answer → List (String × String)
  | .petition p => if p.assigned then [(p.code, p.address)] else []
  | _ => []

end Answer

def Use.apply (rt : Runtime) (s : PetitionStore) : Use → PetitionStore × Answer
  | .create edPub xPub sig now codes saves =>
    (s.create rt edPub xPub sig now codes saves).map id Answer.ofPetition
  | .get code now saves => (s.get code now saves).map id Answer.ofPetition
  | .findByKey edPub now pick => (PetitionQueue.findByKey s edPub now pick).map id Answer.ofFound
  | .assign code address addrCred routeCred now saves =>
    (s.assign rt code address addrCred routeCred now saves).map id Answer.ofPetition
  | .complete code saves => (s.complete code saves).map id Answer.ofUnit
  | .prune now saves => (PetitionQueue.prune s now saves).map id Answer.ofCount
  | .pending now => (PetitionQueue.pending s now).map id Answer.count
  | .restart ttl now saves => (newStore rt s ttl now saves).map id Answer.ofUnit

/-- The queue, the time of its last use, and what has been reported as assigned. -/
structure Run where
  store : PetitionStore
  clock : Time
  reported : List (String × String)

def Use.now (clock : Time) : Use → Time
  | .create _ _ _ now _ _ | .get _ now _ | .findByKey _ now _ | .assign _ _ _ _ now _ | .prune now _
    | .pending now
  | .restart _ now _ => now
  | .complete _ _ => clock

def Run.step (rt : Runtime) (r : Run) (u : Use) : Run :=
  ⟨(u.apply rt r.store).1, u.now r.clock, r.reported ++ (u.apply rt r.store).2.reports⟩

def Run.opened (ttl : Duration) (now : Time) : Run :=
  ⟨⟨if ttl ≤ 0 then defaultTTL else ttl, [], []⟩, now, []⟩

section Claims

variable (rt : Runtime)

/-- The clock does not go back, and shows a year of four digits, as the JSON form of a time asks. -/
def Clocked (r : Run) (u : Use) : Prop :=
  r.clock.after (u.now r.clock) = false ∧
    0 ≤ (u.now r.clock).sec.toInt ∧ (u.now r.clock).sec.toInt ≤ 315537897599

def live (l : List Petition) (t : Time) : List Petition := l.filter fun p => !p.expired t

def restarted (s : PetitionStore) (t : Time) : List Petition :=
  live (s.file.filterMap (Petition.rehydrate rt)) t

/-- An operation that fails changes neither the live petitions nor what a restart would load; after
one that succeeds a restart would load the live petitions. -/
structure Atomic (r : Run) (u : Use) : Prop where
  failed : ∀ e, (u.apply rt r.store).2 = .failed e → ∀ t, (u.now r.clock).after t = false →
    live (u.apply rt r.store).1.byCode t = live r.store.byCode t ∧
      restarted rt (u.apply rt r.store).1 t = restarted rt r.store t
  succeeded : (∀ e, (u.apply rt r.store).2 ≠ .failed e) → ∀ t, (u.now r.clock).after t = false →
    restarted rt (u.apply rt r.store).1 t = live (u.apply rt r.store).1.byCode t

structure Bounded (l : List Petition) : Prop where
  few : l.length ≤ maxPending
  distinct : (l.map Petition.code).Nodup

def OneAddress (r : Run) : Prop :=
  ∀ code address address', (code, address) ∈ r.reported → (code, address') ∈ r.reported →
    address = address'

structure Parks (c : Credential) : Prop where
  settled : Credential.fromProto c.toProto = c
  written : rt.credential.marshal c.toProto ≠ []

/-- No save fails that follows an edit, no code is drawn that was spent, and what is assigned is an
address, with two credentials that survive their wire copies. -/
def Meets (r : Run) : Use → Prop
  | .create edPub xPub sig now codes saves =>
    Petition.verifyProof rt edPub xPub sig = true → (r.store.pruneLocked now).byCode.length <
      maxPending →
      saves = true ∧ ∀ code ∈ codes.take 8, ∀ address, (code, address) ∉ r.reported
  | .assign code address addrCred routeCred now saves =>
    ∀ p, find r.store.byCode code = some p → p.expired now = false → p.assigned = false →
      saves = true ∧ address ≠ "" ∧ Parks rt addrCred ∧ Parks rt routeCred
  | .complete code saves => (find r.store.byCode code).isSome → saves = true
  | _ => True

end Claims

section Effects

variable {rt : Runtime} {s : PetitionStore} {now : Time} {code : String}

def write (s : PetitionStore) : Option Bool → PetitionStore
  | none => s
  | some saves => s.saveLocked saves

inductive Effect (rt : Runtime) (r : Run) (u : Use) : PetitionStore → Answer → Prop
  | trimmed (f : Petition → Bool) (saves : Option Bool) (answer : Answer)
      (hdropped : ∀ p ∈ r.store.byCode, f p = false → p.expired (u.now r.clock) = true)
      (hanswer : ∀ p, answer = .petition p → p ∈ r.store.byCode.filter f ∧
        p.expired (u.now r.clock) = false) :
    Effect rt r u (write { r.store with byCode := r.store.byCode.filter f } saves) answer
  | filed (p : Petition) (saves : Bool) (hempty : p.address = "" ∧ p.saved = p ∧
    p.rehydrate rt = some p)
      (hexpires : p.expiresAt = (u.now r.clock).add r.store.ttl)
      (hfree : p.code ∉ (r.store.pruneLocked (u.now r.clock)).byCode.map Petition.code)
      (hfew : (r.store.pruneLocked (u.now r.clock)).byCode.length < maxPending)
      (hmeets : Meets rt r u → saves = true ∧ ∀ address, (p.code, address) ∉ r.reported) :
    Effect rt r u
      ({ r.store with byCode := (r.store.pruneLocked (u.now r.clock)).byCode ++ [p] }.saveLocked
        saves)
      (if saves then .petition p else .failed .notSaved)
  | decided (p : Petition) (address : String) (addrCred routeCred : Credential) (saves : Bool)
      (hfind : find r.store.byCode p.code = some p) (hlive : p.expired (u.now r.clock) = false)
      (hunassigned : p.assigned = false)
      (hmeets : Meets rt r u → saves = true ∧ address ≠ "" ∧ Parks rt addrCred ∧
        Parks rt routeCred) :
    Effect rt r u
      ({ r.store with
        byCode := replace r.store.byCode (p.assign rt address addrCred routeCred (u.now r.clock))
          }.saveLocked saves)
      (if saves then .petition (p.assign rt address addrCred routeCred (u.now r.clock))
        else .failed .notSaved)
  | removed (code : String) (saves : Bool) (hmeets : Meets rt r u → saves = true) :
    Effect rt r u (r.store.drop code saves) (if saves then .done else .failed .notSaved)
  | reopened (ttl : Duration) (saves : Bool) :
    Effect rt r u (newStore rt r.store ttl (u.now r.clock) saves).1
      (if saves then .done else .failed .notSaved)

theorem find_eq_none_iff {l : List Petition} : find l code = none ↔ code ∉ l.map Petition.code := by
  unfold find
  rw [List.find?_eq_none, List.mem_map, not_exists]
  exact forall_congr' fun p => by rw [beq_iff_eq, not_and]

theorem find_of_mem {l : List Petition} (h : (l.map Petition.code).Nodup) {p : Petition}
    (hp : p ∈ l) :
    find l p.code = some p := by
  induction l with
  | nil => exact absurd hp List.not_mem_nil
  | cons q l ih =>
    rw [List.map_cons, List.nodup_cons] at h
    rcases List.mem_cons.mp hp with rfl | hp
    · unfold find
      rw [List.find?_cons, beq_self_eq_true]
    · have hne : q.code ≠ p.code := fun heq => h.1 (heq ▸ List.mem_map_of_mem hp)
      have hrest := ih h.2 hp
      unfold find at hrest ⊢
      rw [List.find?_cons_of_neg (by simpa using hne), hrest]

theorem mem_of_find {l : List Petition} {p : Petition} (h : find l code = some p) : p ∈ l :=
  List.mem_of_find?_eq_some h

theorem Effect.refused {r : Run} {u : Use} {answer : Answer}
    (hanswer : ∀ p, answer = .petition p → p ∈ r.store.byCode ∧ p.expired (u.now r.clock) = false) :
    Effect rt r u r.store answer := by
  have hall : r.store.byCode.filter (fun _ => true) = r.store.byCode := List.filter_true _
  have heffect := @Effect.trimmed rt r u (fun _ => true) none answer (by simp)
    (by rwa [hall])
  rwa [hall] at heffect

theorem Effect.dropped {r : Run} {u : Use} {p : Petition} {saves : Bool} {e : PetitionError}
    (hdistinct : (r.store.byCode.map Petition.code).Nodup)
    (hfind : find r.store.byCode code = some p) (hexpired : p.expired (u.now r.clock) = true) :
    Effect rt r u (r.store.drop code saves) (.failed e) := by
  apply Effect.trimmed (fun q => q.code != code) (some saves) (.failed e)
  · intro q hq hcode
    have hsame : q.code = code := by simpa using hcode
    have hfound := find_of_mem hdistinct hq
    rw [hsame, hfind] at hfound
    rwa [← Option.some.inj hfound]
  · exact fun p hp => nomatch hp

theorem effect (rt : Runtime) (r : Run) (u : Use)
    (hdistinct : (r.store.byCode.map Petition.code).Nodup) :
    Effect rt r u (u.apply rt r.store).1 (u.apply rt r.store).2 := by
  have hpruned : ∀ p, p ∈ (r.store.pruneLocked (u.now r.clock)).byCode → p.expired (u.now r.clock) =
      false := by
    intro p hp
    simpa using (List.mem_filter.mp hp).2
  have hdropped : ∀ p ∈ r.store.byCode, (!p.expired (u.now r.clock)) = false →
      p.expired (u.now r.clock) = true := by
    intro p _ hp
    simpa using hp
  cases u with
  | create edPub xPub sig now codes saves =>
    simp only [Use.apply, PetitionStore.create]
    split
    · exact Effect.refused (by intro p hp; exact nomatch hp)
    · next hproof =>
      split
      · exact Effect.trimmed _ none _ hdropped (by intro p hp; exact nomatch hp)
      · next hfew =>
        split
        · exact Effect.trimmed _ none _ hdropped (by intro p hp; exact nomatch hp)
        · next code hcode =>
          have hmem := List.mem_of_find?_eq_some hcode
          have hfree := List.find?_some hcode
          rw [Option.isNone_iff_eq_none, find_eq_none_iff] at hfree
          have heffect := @Effect.filed rt r (.create edPub xPub sig now codes saves)
            ⟨code, edPub, xPub, now, now.add r.store.ttl, "", default, none, none, [], []⟩ saves
            ⟨rfl, rfl, rfl⟩ rfl hfree (Nat.lt_of_not_ge hfew) fun hmeets => by
              have hsaved := hmeets (by simpa using hproof) (Nat.lt_of_not_ge hfew)
              exact ⟨hsaved.1, hsaved.2 code hmem⟩
          cases saves with
          | true => exact heffect
          | false => exact heffect
  | get code now saves =>
    simp only [Use.apply, PetitionStore.get]
    split
    · exact Effect.refused (by intro p hp; exact nomatch hp)
    · next p hfind =>
      split
      · next hexpired => exact Effect.dropped hdistinct hfind hexpired
      · next hlive =>
        apply Effect.refused
        intro q hq
        cases hq
        exact ⟨mem_of_find hfind, Bool.eq_false_iff.mpr hlive⟩
  | findByKey edPub now pick =>
    simp only [Use.apply, findByKey]
    apply Effect.trimmed _ none _ hdropped
    intro p hp
    have hfound : p ∈ (r.store.pruneLocked now).byCode.filter fun p => p.ed25519Public == edPub :=
      List.mem_of_getElem? (Answer.eq_of_ofFound hp)
    exact ⟨List.mem_of_mem_filter hfound, hpruned p (List.mem_of_mem_filter hfound)⟩
  | assign code address addrCred routeCred now saves =>
    simp only [Use.apply, PetitionStore.assign]
    split
    · exact Effect.refused (by intro p hp; exact nomatch hp)
    · next p hfind =>
      split
      · next hexpired => exact Effect.dropped hdistinct hfind hexpired
      · next hlive =>
        split
        · exact Effect.refused (by intro p hp; exact nomatch hp)
        · next hunassigned =>
          have hcode := code_of_find hfind
          have heffect := @Effect.decided rt r (.assign code address addrCred routeCred now saves)
            p address addrCred routeCred saves (hcode ▸ hfind) (Bool.eq_false_iff.mpr hlive)
            (Bool.eq_false_iff.mpr hunassigned)
            fun hmeets =>
              hmeets p hfind (Bool.eq_false_iff.mpr hlive) (Bool.eq_false_iff.mpr hunassigned)
          cases saves with
          | true => exact heffect
          | false => exact heffect
  | complete code saves =>
    simp only [Use.apply, PetitionStore.complete]
    split
    · exact Effect.refused (by intro p hp; exact nomatch hp)
    · next p hfind =>
      have heffect := @Effect.removed rt r (.complete code saves) code saves
        fun hmeets => hmeets (by rw [hfind]; rfl)
      cases saves with
      | true => exact heffect
      | false => exact heffect
  | prune now saves =>
    simp only [Use.apply, prune, PetitionStore.prune]
    split
    · exact Effect.trimmed _ none _ hdropped fun p hp => absurd hp Answer.ofCount_ne
    · exact Effect.trimmed _ (some saves) _ hdropped fun p hp => absurd hp Answer.ofCount_ne
  | pending now => exact Effect.trimmed _ none _ hdropped (by intro p hp; exact nomatch hp)
  | restart ttl now saves =>
    have heffect := @Effect.reopened rt r (.restart ttl now saves) ttl saves
    cases saves with
    | true => exact heffect
    | false => exact heffect

end Effects

section Sound

variable {rt : Runtime} {l l' : List Petition} {s s' : PetitionStore} {r : Run} {u : Use}
  {answer : Answer}
  {p : Petition}

structure Sound (s : PetitionStore) : Prop where
  queued : Bounded s.byCode
  saved : Bounded s.file
  ttl : 0 ≤ s.ttl.toInt

theorem Bounded.sublist (h : Bounded l)
    (hsub : (l'.map Petition.code).Sublist (l.map Petition.code)) : Bounded l' := by
  refine ⟨le_trans ?_ h.few, hsub.nodup h.distinct⟩
  have hlength := hsub.length_le
  rwa [List.length_map, List.length_map] at hlength

theorem Bounded.filter (h : Bounded l) (f : Petition → Bool) : Bounded (l.filter f) :=
  h.sublist (List.filter_sublist.map _)

theorem map_code_saved : (l.map Petition.saved).map Petition.code = l.map Petition.code := by
  rw [List.map_map]
  rfl

theorem map_code_replace {p : Petition} :
    (replace l p).map Petition.code = l.map Petition.code := by
  unfold replace
  rw [List.map_map]
  apply List.map_congr_left
  intro q _
  rw [Function.comp_apply]
  split
  · next hcode => exact hcode.symm
  · rfl

theorem map_code_rehydrate :
    ((l.filterMap (Petition.rehydrate rt)).map Petition.code).Sublist (l.map Petition.code) := by
  induction l with
  | nil => exact List.Sublist.refl _
  | cons q l ih =>
    cases hq : q.rehydrate rt with
    | none =>
      rw [List.filterMap_cons_none hq, List.map_cons]
      exact ih.cons _
    | some q' =>
      rw [List.filterMap_cons_some hq, List.map_cons, List.map_cons, code_of_rehydrate hq]
      exact ih.cons_cons _

theorem byCode_saveLocked {saves : Bool} : (s.saveLocked saves).byCode = s.byCode := by
  unfold PetitionStore.saveLocked
  split
  · rfl
  · rfl

theorem Sound.saveLocked (h : Sound s) (saves : Bool) : Sound (s.saveLocked saves) := by
  unfold PetitionStore.saveLocked
  split
  · exact ⟨h.queued, h.queued.sublist (by rw [map_code_saved]), h.ttl⟩
  · exact h

theorem Sound.withQueue (h : Sound s) (hl : Bounded l) : Sound { s with byCode := l } :=
  ⟨hl, h.saved, h.ttl⟩

theorem Sound.write (h : Sound s) (saves : Option Bool) : Sound (write s saves) := by
  cases saves with
  | none => exact h
  | some saves => exact h.saveLocked saves

theorem effective_ttl (ttl : Duration) : 0 ≤ (if ttl ≤ 0 then defaultTTL else ttl).toInt := by
  split
  · decide
  · next hpos =>
    rw [Int64.le_iff_toInt_le] at hpos
    have hzero : (0 : Int64).toInt = 0 := rfl
    omega

theorem Effect.sound (heffect : Effect rt r u s' answer) (h : Sound r.store) : Sound s' := by
  cases heffect with
  | trimmed f saves answer hdropped hanswer => exact (h.withQueue (h.queued.filter f)).write saves
  | filed p saves hempty hexpires hfree hfew hmeets =>
    have hpruned : Bounded (r.store.pruneLocked (u.now r.clock)).byCode := h.queued.filter _
    apply (h.withQueue _).saveLocked
    constructor
    · rw [List.length_append, List.length_singleton]
      exact hfew
    · rw [List.map_append, List.nodup_append]
      refine ⟨hpruned.distinct, List.nodup_singleton _, ?_⟩
      rintro a ha b hb rfl
      rw [List.map_singleton, List.mem_singleton] at hb
      exact hfree (hb ▸ ha)
  | decided p address addrCred routeCred saves hfind hlive hunassigned hmeets =>
    exact (h.withQueue (h.queued.sublist (by rw [map_code_replace]))).saveLocked saves
  | removed code saves hmeets => exact (h.withQueue (h.queued.filter _)).saveLocked saves
  | reopened ttl saves =>
    have hloaded : Bounded (r.store.file.filterMap (Petition.rehydrate rt)) :=
      h.saved.sublist map_code_rehydrate
    have hopened : Sound ⟨if ttl ≤ 0 then defaultTTL else ttl,
        (r.store.file.filterMap (Petition.rehydrate rt)).filter fun p => !p.expired (u.now r.clock),
          r.store.file⟩ :=
      ⟨hloaded.filter _, h.saved, effective_ttl ttl⟩
    exact hopened.saveLocked saves

theorem byCode_write (saves : Option Bool) : (write s saves).byCode = s.byCode := by
  cases saves with
  | none => rfl
  | some saves => exact byCode_saveLocked

theorem Effect.returned (heffect : Effect rt r u s' answer) (h : Sound r.store)
    (hclock : Clocked r u) (hanswer : answer = .petition p) : p ∈ s'.byCode ∧
    p.expired (u.now r.clock) = false := by
  cases heffect with
  | trimmed f saves answer hdropped hreturned =>
    obtain ⟨hmem, hlive⟩ := hreturned p hanswer
    exact ⟨by rwa [byCode_write], hlive⟩
  | filed q saves hempty hexpires hfree hfew hmeets =>
    cases saves with
    | false => exact nomatch hanswer
    | true =>
      obtain rfl := Answer.petition.inj hanswer
      refine ⟨?_, ?_⟩
      · rw [byCode_saveLocked]
        exact List.mem_append_right _ (List.mem_singleton_self q)
      · have hnanos := Time.nanos_add h.ttl hclock.2.2 hclock.2.1
        rw [Petition.expired, hexpires, Time.after_eq_false_iff, hnanos]
        exact Int.le_add_of_nonneg_right h.ttl
  | decided q address addrCred routeCred saves hfind hlive hunassigned hmeets =>
    cases saves with
    | false => exact nomatch hanswer
    | true =>
      obtain rfl := Answer.petition.inj hanswer
      refine ⟨?_, hlive⟩
      rw [byCode_saveLocked]
      have hreplaced :=
        find_replace hfind (r := q.assign rt address addrCred routeCred (u.now r.clock))
      have hcode : (q.assign rt address addrCred routeCred (u.now r.clock)).code = q.code := rfl
      rw [hcode, if_pos rfl] at hreplaced
      exact mem_of_find hreplaced
  | removed code saves hmeets =>
    cases saves with
    | false => exact nomatch hanswer
    | true => exact nomatch hanswer
  | reopened ttl saves =>
    cases saves with
    | false => exact nomatch hanswer
    | true => exact nomatch hanswer

end Sound

section Settled

variable {rt : Runtime} {l l' : List Petition} {s s' : PetitionStore} {r : Run} {u : Use}
  {answer : Answer}
  {p : Petition} {t t' : Time}

theorem expired_mono (h : p.expired t = true) (hle : t.after t' = false) : p.expired t' = true := by
  rw [Petition.expired, Time.after_iff] at h ⊢
  rw [Time.after_eq_false_iff] at hle
  omega

structure Behind (rt : Runtime) (clock : Time) (s : PetitionStore) (l : List Petition) : Prop where
  saved : s.file = l.map Petition.saved
  kept : ∃ f, s.byCode = l.filter f ∧ ∀ p ∈ l, f p = false → p.expired clock = true
  rehydrates : ∀ p ∈ l, p.saved.rehydrate rt = some p

def Settled (rt : Runtime) (clock : Time) (s : PetitionStore) : Prop := ∃ l, Behind rt clock s l

theorem Behind.loaded (h : Behind rt t s l) : s.file.filterMap (Petition.rehydrate rt) = l := by
  rw [h.saved, List.filterMap_map]
  refine (List.filterMap_congr fun p hp => ?_).trans (List.filterMap_some (l := l))
  exact h.rehydrates p hp

theorem Settled.mono (h : Settled rt t s) (hle : t.after t' = false) : Settled rt t' s := by
  obtain ⟨l, hl⟩ := h
  obtain ⟨f, hf, hdropped⟩ := hl.kept
  exact ⟨l, hl.saved, ⟨f, hf, fun p hp hno => expired_mono (hdropped p hp hno) hle⟩, hl.rehydrates⟩

theorem live_filter {f : Petition → Bool} (hdropped : ∀ p ∈ l, f p = false → p.expired t = true)
    (hle : t.after t' = false) : live (l.filter f) t' = live l t' := by
  unfold live
  rw [List.filter_filter]
  apply List.filter_congr
  intro p hp
  cases hf : f p with
  | true => rw [Bool.and_true]
  | false => rw [expired_mono (hdropped p hp hf) hle]; rfl

theorem Settled.restarted_eq (h : Settled rt t s) (hle : t.after t' = false) :
    restarted rt s t' = live s.byCode t' := by
  obtain ⟨l, hl⟩ := h
  obtain ⟨f, hf, hdropped⟩ := hl.kept
  rw [restarted, hl.loaded, hf, live_filter hdropped hle]

theorem settled_saved (h : ∀ p ∈ l, p.saved.rehydrate rt = some p) :
    Settled rt t ({ s with byCode := l }.saveLocked true) := by
  refine ⟨l, rfl, ⟨fun _ => true, ?_, ?_⟩, h⟩
  · exact (List.filter_true l).symm
  · exact fun p _ hno => Bool.noConfusion hno

theorem Settled.rehydrates (h : Settled rt t s) : ∀ p ∈ s.byCode,
    p.saved.rehydrate rt = some p := by
  obtain ⟨l, hl⟩ := h
  obtain ⟨f, hf, -⟩ := hl.kept
  intro p hp
  rw [hf] at hp
  exact hl.rehydrates p (List.mem_of_mem_filter hp)

theorem Settled.filter (h : Settled rt t s) {f : Petition → Bool}
    (hdropped : ∀ p ∈ s.byCode, f p = false → p.expired t = true) :
    Settled rt t { s with byCode := s.byCode.filter f } := by
  obtain ⟨l, hl⟩ := h
  obtain ⟨g, hg, hgone⟩ := hl.kept
  refine ⟨l, hl.saved, ⟨fun p => g p && f p, ?_, ?_⟩, hl.rehydrates⟩
  · change s.byCode.filter f = _
    rw [hg, List.filter_filter]
    exact List.filter_congr fun p _ => Bool.and_comm _ _
  · intro p hp hno
    dsimp only at hno
    cases hgp : g p with
    | false => exact hgone p hp hgp
    | true =>
      rw [hgp, Bool.true_and] at hno
      exact hdropped p (hg ▸ List.mem_filter.mpr ⟨hp, hgp⟩) hno

theorem Settled.saveLocked (h : Settled rt t s) (saves : Bool) : Settled rt t
    (s.saveLocked saves) := by
  cases saves with
  | false => exact h
  | true => exact settled_saved (s := s) h.rehydrates

theorem Settled.write (h : Settled rt t s) (saves : Option Bool) : Settled rt t
    (write s saves) := by
  cases saves with
  | none => exact h
  | some saves => exact h.saveLocked saves

theorem rehydrate_assign {address : String} {addrCred routeCred : Credential}
    (haddr : Parks rt addrCred) (hroute : Parks rt routeCred) :
    (p.assign rt address addrCred routeCred t).saved.rehydrate rt =
      some (p.assign rt address addrCred routeCred t) := by
  have hread : ∀ c, Parks rt c →
      Petition.rehydrateCredential rt (rt.credential.marshal c.toProto) = some (some c) := by
    intro c hc
    unfold Petition.rehydrateCredential Credential.fromProtoBytes
    rw [if_neg (by simpa using hc.written), Codec.unmarshal_marshal, Option.map_some, hc.settled,
      Option.map_some]
  unfold Petition.rehydrate
  simp only [Petition.saved, Petition.assign, hread _ haddr, hread _ hroute, Option.bind_eq_bind,
    Option.bind_some]
  rfl

theorem Effect.settled (heffect : Effect rt r u s' answer) (hmeets : Meets rt r u)
    (h : Settled rt (u.now r.clock) r.store) : Settled rt (u.now r.clock) s' := by
  cases heffect with
  | trimmed f saves answer hdropped hanswer => exact (h.filter hdropped).write saves
  | filed p saves hempty hexpires hfree hfew hsaves =>
    rw [(hsaves hmeets).1]
    apply settled_saved
    intro q hq
    rcases List.mem_append.mp hq with hold | hnew
    · exact h.rehydrates q (List.mem_of_mem_filter hold)
    · obtain rfl := List.mem_singleton.mp hnew
      rw [hempty.2.1, hempty.2.2]
  | decided p address addrCred routeCred saves hfind hlive hunassigned hsaves =>
    obtain ⟨htrue, haddress, haddr, hroute⟩ := hsaves hmeets
    rw [htrue]
    apply settled_saved
    intro q hq
    obtain ⟨q', hq', rfl⟩ := List.mem_map.mp hq
    split
    · exact rehydrate_assign haddr hroute
    · exact h.rehydrates q' hq'
  | removed code saves hsaves =>
    unfold drop
    rw [hsaves hmeets]
    exact settled_saved fun q hq => h.rehydrates q (List.mem_of_mem_filter hq)
  | reopened ttl saves =>
    obtain ⟨l, hl⟩ := h
    have hopened : Settled rt (u.now r.clock) ⟨if ttl ≤ 0 then defaultTTL else ttl,
        (r.store.file.filterMap (Petition.rehydrate rt)).filter fun p => !p.expired (u.now r.clock),
        r.store.file⟩ := by
      refine ⟨l, hl.saved, ⟨fun p => !p.expired (u.now r.clock), by rw [hl.loaded], ?_⟩,
        hl.rehydrates⟩
      exact fun p _ hp => by simpa using hp
    exact hopened.saveLocked saves

theorem Effect.live_of_failed (heffect : Effect rt r u s' answer) (hmeets : Meets rt r u)
    (h : Settled rt (u.now r.clock) r.store) {e : PetitionError} (hanswer : answer = .failed e)
    (hle : (u.now r.clock).after t = false) : live s'.byCode t = live r.store.byCode t := by
  cases heffect with
  | trimmed f saves answer hdropped hreturned => rw [byCode_write, live_filter hdropped hle]
  | filed p saves hempty hexpires hfree hfew hsaves =>
    rw [(hsaves hmeets).1] at hanswer
    exact nomatch hanswer
  | decided p address addrCred routeCred saves hfind hlive hunassigned hsaves =>
    rw [(hsaves hmeets).1] at hanswer
    exact nomatch hanswer
  | removed code saves hsaves =>
    rw [hsaves hmeets] at hanswer
    exact nomatch hanswer
  | reopened ttl saves =>
    rw [← h.restarted_eq hle]
    unfold newStore
    rw [byCode_saveLocked, restarted]
    exact live_filter (fun p _ hp => by simpa using hp) hle

theorem atomic_of_settled (hsound : Sound r.store) (hmeets : Meets rt r u) (hclock : Clocked r u)
    (h : Settled rt r.clock r.store) : Atomic rt r u := by
  have heffect := effect rt r u hsound.queued.distinct
  have hbefore := h.mono hclock.1
  have hafter := heffect.settled hmeets hbefore
  constructor
  · intro e he t hle
    have hlive := heffect.live_of_failed hmeets hbefore he hle
    refine ⟨hlive, ?_⟩
    rw [hafter.restarted_eq hle, hbefore.restarted_eq hle, hlive]
  · exact fun _ t hle => hafter.restarted_eq hle

end Settled

section Ledger

variable {rt : Runtime} {l : List Petition} {s s' : PetitionStore} {r : Run} {u : Use}
  {answer : Answer}
  {reported : List (String × String)} {t : Time}

def Named (reported : List (String × String)) (l : List Petition) : Prop :=
  ∀ code address, (code, address) ∈ reported → ∀ p ∈ l, p.code = code → p.address = address

theorem Named.saved (h : Named reported l) : Named reported (l.map Petition.saved) := by
  intro code address hmem q hq hcode
  obtain ⟨p, hp, rfl⟩ := List.mem_map.mp hq
  exact h code address hmem p hp hcode

theorem Behind.named (hl : Behind rt t s l) (h : Named reported s.file) : Named reported l := by
  intro code address hmem p hp hcode
  have hsaved : p.saved ∈ s.file := by
    rw [hl.saved]
    exact List.mem_map_of_mem hp
  exact h code address hmem p.saved hsaved hcode

theorem Behind.subset (hl : Behind rt t s l) {p : Petition} (hp : p ∈ s.byCode) : p ∈ l := by
  obtain ⟨f, hf, -⟩ := hl.kept
  rw [hf] at hp
  exact List.mem_of_mem_filter hp

theorem named_saveLocked {saves : Bool} (hqueue : Named reported l)
    (hfile : Named reported s.file) :
    Named reported ({ s with byCode := l }.saveLocked saves).file := by
  unfold PetitionStore.saveLocked
  split
  · exact hqueue.saved
  · exact hfile

theorem Effect.named (heffect : Effect rt r u s' answer) (hmeets : Meets rt r u)
    (h : Settled rt t r.store) (hempty : ∀ code, (code, "") ∉ r.reported)
    (hnamed : Named r.reported r.store.file) :
    Named r.reported s'.file := by
  obtain ⟨l, hl⟩ := h
  have hloaded : Named r.reported l := hl.named hnamed
  have hqueued : Named r.reported r.store.byCode := fun code address hmem p hp =>
    hloaded code address hmem p (hl.subset hp)
  have hkept : ∀ f, Named r.reported (r.store.byCode.filter f) := fun f code address hmem p hp =>
    hqueued code address hmem p (List.mem_of_mem_filter hp)
  cases heffect with
  | trimmed f saves answer hdropped hanswer =>
    cases saves with
    | none => exact hnamed
    | some saves => exact named_saveLocked (hkept f) hnamed
  | filed p saves hfresh hexpires hfree hfew hsaves =>
    apply named_saveLocked _ hnamed
    intro code address hmem q hq hcode
    rcases List.mem_append.mp hq with hold | hnew
    · exact hkept _ code address hmem q hold hcode
    · rw [List.mem_singleton.mp hnew] at hcode
      exact absurd (hcode ▸ hmem) ((hsaves hmeets).2 address)
  | decided p address addrCred routeCred saves hfind hlive hunassigned hsaves =>
    apply named_saveLocked _ hnamed
    intro code address' hmem q hq hcode
    obtain ⟨q', hq', rfl⟩ := List.mem_map.mp hq
    split at hcode
    · -- the petition had no address, so nothing was reported of its code
      have hold := hqueued code address' hmem p (mem_of_find hfind) hcode
      have hnone : p.address = "" := by simpa [Petition.assigned] using hunassigned
      rw [hnone] at hold
      exact absurd (hold ▸ hmem) (hempty code)
    · next hother =>
      rw [if_neg hother]
      exact hqueued code address' hmem q' hq' hcode
  | removed code saves hsaves => exact named_saveLocked (hkept _) hnamed
  | reopened ttl saves =>
    have hlive : Named r.reported ((r.store.file.filterMap (Petition.rehydrate rt)).filter
        fun p => !p.expired (u.now r.clock)) := by
      rw [hl.loaded]
      exact fun code address hmem p hp => hloaded code address hmem p (List.mem_of_mem_filter hp)
    exact named_saveLocked (s := ⟨if ttl ≤ 0 then defaultTTL else ttl, [], r.store.file⟩) hlive
      hnamed

structure Ledger (r : Run) : Prop where
  one : OneAddress r
  nonempty : ∀ code, (code, "") ∉ r.reported
  named : Named r.reported r.store.file

theorem mem_reports {code address : String} (h : (code, address) ∈ answer.reports) :
    ∃ p, answer = .petition p ∧ p.assigned = true ∧ p.code = code ∧ p.address = address := by
  cases answer with
  | petition p =>
    rw [Answer.reports] at h
    by_cases hassigned : p.assigned = true
    · rw [if_pos hassigned, List.mem_singleton, Prod.mk.injEq] at h
      exact ⟨p, rfl, hassigned, h.1.symm, h.2.symm⟩
    · rw [if_neg hassigned] at h
      exact absurd h List.not_mem_nil
  | absent => exact absurd h List.not_mem_nil
  | count n => exact absurd h List.not_mem_nil
  | done => exact absurd h List.not_mem_nil
  | failed e => exact absurd h List.not_mem_nil

theorem address_of_queued (hsound : Sound s) (h : Settled rt t s) {p q : Petition}
    (hp : p ∈ s.byCode) (hq : q ∈ s.file) (hcode : q.code = p.code) : q.address = p.address := by
  obtain ⟨l, hl⟩ := h
  have hdistinct := hsound.saved.distinct
  rw [hl.saved, map_code_saved] at hdistinct
  rw [hl.saved] at hq
  obtain ⟨q', hq', rfl⟩ := List.mem_map.mp hq
  have hfound := find_of_mem hdistinct (hl.subset hp)
  have hfound' := find_of_mem hdistinct hq'
  have hcode' : q'.code = p.code := hcode
  rw [hcode', hfound] at hfound'
  rw [Option.some.inj hfound']
  rfl

theorem Effect.ledger (heffect : Effect rt r u s' answer) (hmeets : Meets rt r u)
    (hclock : Clocked r u) (hsound : Sound r.store) (h : Settled rt (u.now r.clock) r.store)
    (hledger : Ledger r) :
    Ledger ⟨s', u.now r.clock, r.reported ++ answer.reports⟩ := by
  have hsound' := heffect.sound hsound
  have hsettled' := heffect.settled hmeets h
  have hnamed := heffect.named hmeets h hledger.nonempty hledger.named
  -- the petition of a new report is in the queue, and in the file
  have hnew : ∀ code address, (code, address) ∈ answer.reports → address ≠ "" ∧
      (∀ q ∈ s'.file, q.code = code → q.address = address) ∧ ∃ q ∈ s'.file, q.code = code := by
    intro code address hmem
    obtain ⟨p, hanswer, hassigned, rfl, rfl⟩ := mem_reports hmem
    have hp := (heffect.returned hsound hclock hanswer).1
    refine ⟨by simpa [Petition.assigned] using hassigned,
      fun q hq hcode => address_of_queued hsound' hsettled' hp hq hcode, p.saved, ?_, rfl⟩
    obtain ⟨l, hl⟩ := hsettled'
    rw [hl.saved]
    exact List.mem_map_of_mem (hl.subset hp)
  have hall : Named (r.reported ++ answer.reports) s'.file := by
    intro code address hmem q hq hcode
    rcases List.mem_append.mp hmem with hold | hreport
    · exact hnamed code address hold q hq hcode
    · exact (hnew code address hreport).2.1 q hq hcode
  refine ⟨?_, ?_, hall⟩
  · intro code address address' hmem hmem'
    have hpair : ∀ a b, (code, a) ∈ r.reported ++ answer.reports → (code, b) ∈ answer.reports →
        a = b := by
      intro a b ha hb
      obtain ⟨-, -, q, hq, hcode⟩ := hnew code b hb
      rw [← hall code a ha q hq hcode, hall code b (List.mem_append_right _ hb) q hq hcode]
    rcases List.mem_append.mp hmem' with hold' | hreport'
    · rcases List.mem_append.mp hmem with hold | hreport
      · exact hledger.one code address address' hold hold'
      · exact (hpair address' address hmem' hreport).symm
    · exact hpair address address' hmem hreport'
  · intro code hmem
    rcases List.mem_append.mp hmem with hold | hreport
    · exact hledger.nonempty code hold
    · exact (hnew code "" hreport).1 rfl

end Ledger

section Runs

variable {rt : Runtime} {r : Run} {u : Use} {ttl : Duration} {now : Time} {uses : List Use}

structure Good (rt : Runtime) (r : Run) : Prop where
  sound : Sound r.store
  settled : Settled rt r.clock r.store
  ledger : Ledger r

theorem sound_step (h : Sound r.store) : Sound (r.step rt u).store :=
  (effect rt r u h.queued.distinct).sound h

theorem good_step (h : Good rt r) (hclock : Clocked r u) (hmeets : Meets rt r u) :
    Good rt (r.step rt u) := by
  have heffect := effect rt r u h.sound.queued.distinct
  have hsettled := h.settled.mono hclock.1
  exact ⟨heffect.sound h.sound, heffect.settled hmeets hsettled,
    heffect.ledger hmeets hclock h.sound hsettled h.ledger⟩

theorem sound_opened : Sound (Run.opened ttl now).store :=
  ⟨⟨Nat.zero_le _, List.nodup_nil⟩, ⟨Nat.zero_le _, List.nodup_nil⟩, effective_ttl ttl⟩

theorem good_opened : Good rt (Run.opened ttl now) where
  sound := sound_opened
  settled := ⟨[], rfl, ⟨fun _ => true, rfl, by simp⟩, by simp⟩
  ledger := ⟨by simp [OneAddress, Run.opened], by simp [Run.opened], by simp [Named, Run.opened]⟩

end Runs

/-- The queue never holds more than it may, nor two petitions under a code, and never returns one
that has expired. And in a run in which no edit is left unsaved, it is atomic and assigns once. -/
theorem petition_queue_atomic (rt : Runtime) (ttl : Duration) (now : Time) (uses : List Use)
    (hclock : Machine.Along (Run.step rt) Clocked (Run.opened ttl now) uses) :
    Machine.Throughout (Run.step rt) (fun r => Bounded r.store.byCode) (Run.opened ttl now) uses ∧
      Machine.Along (Run.step rt) (fun r u => ∀ p, (u.apply rt r.store).2 = .petition p →
        p.expired (u.now r.clock) = false) (Run.opened ttl now) uses ∧
      (Machine.Along (Run.step rt) (Meets rt) (Run.opened ttl now) uses →
        Machine.Along (Run.step rt) (Atomic rt) (Run.opened ttl now) uses ∧
          Machine.Throughout (Run.step rt) OneAddress (Run.opened ttl now) uses) := by
  have hsound : Machine.Throughout (Run.step rt) (fun r => Sound r.store) (Run.opened ttl now)
      uses :=
    Machine.throughout_of_invariant sound_opened fun r u h => sound_step h
  refine ⟨hsound.imp fun r h => h.queued, ?_, fun hmeets => ?_⟩
  · refine hclock.mono hsound fun r u h hclocked p hp => ?_
    exact ((effect rt r u h.queued.distinct).returned h hclocked hp).2
  · have halong := hclock.and hmeets
    have hgood : Machine.Throughout (Run.step rt) (Good rt) (Run.opened ttl now) uses :=
      Machine.throughout_of_along good_opened (fun r u h hu => good_step h hu.1 hu.2) halong
    refine ⟨halong.mono hgood fun r u h hu => ?_, hgood.imp fun r h => h.ledger.one⟩
    exact atomic_of_settled h.sound hu.2 hu.1 h.settled

section Unsaved

noncomputable def queueRuntime : Runtime := idealRuntime [keyOf 2] []

def noon : Time := Time.ofUnix 43200

def filing : Use := .create (keyOf 2) (Fixed.copy 32 (keyOf 3)) [] noon ["0428-9173-5560"] true

def parked : Credential :=
  .fromProto (plainCredential "example.org" "bob@example.org" "address" 1 2)

def naming (address : String) (saves : Bool) : Use :=
  .assign "0428-9173-5560" address parked parked noon saves

theorem verifyProof_filing :
    Petition.verifyProof queueRuntime (keyOf 2) (Fixed.copy 32 (keyOf 3)) [] = true := by
  have hlength : ((keyOf 2).length == Crypto.ed25519PublicKeySize) = true := by decide
  rw [Petition.verifyProof, hlength, Bool.true_and]
  simp [queueRuntime, idealRuntime, Ideal.tableVerify]

def filed : Petition :=
  ⟨"0428-9173-5560", keyOf 2, Fixed.copy 32 (keyOf 3), noon, noon.add defaultTTL, "", default, none,
    none, [], []⟩

def afternoon : Run := ⟨⟨defaultTTL, [filed], [filed]⟩, noon, []⟩

theorem step_filing : (Run.opened 0 noon).step queueRuntime filing = afternoon := by
  have hcreated : (Run.opened 0 noon).store.create queueRuntime (keyOf 2) (Fixed.copy 32 (keyOf 3))
      [] noon
      ["0428-9173-5560"] true = (afternoon.store, .ok filed) := by
    rw [PetitionStore.create, verifyProof_filing]
    rfl
  have happly : filing.apply queueRuntime (Run.opened 0 noon).store =
      (afternoon.store, .petition filed) :=
    congrArg (Prod.map id Answer.ofPetition) hcreated
  unfold Run.step
  rw [happly]
  rfl

theorem parks_parked : Parks queueRuntime parked where
  settled := rfl
  written := by
    apply queueRuntime.credential.marshal_ne_nil
    intro heq
    exact absurd (congrArg Pb.Credential.address heq) (show "bob@example.org" ≠ "" by decide)

theorem clocked_noon {r : Run} {u : Use} (hclock : r.clock = noon) (hnow : u.now r.clock = noon) :
    Clocked r u := by
  rw [Clocked, hnow, hclock]
  decide

theorem petition_queue_atomic_noon :
    Machine.Along (Run.step queueRuntime) (Atomic queueRuntime) (Run.opened 0 noon)
      [filing, naming "bob@example.org" true, .get "0428-9173-5560" noon true] := by
  refine ((petition_queue_atomic queueRuntime 0 noon _ ?_).2.2 ?_).1
  · exact ⟨clocked_noon rfl rfl, clocked_noon rfl rfl, clocked_noon rfl rfl, trivial⟩
  · refine ⟨fun _ _ => ⟨rfl, fun code _ address => List.not_mem_nil⟩, ?_, trivial, trivial⟩
    exact fun p _ _ _ => ⟨rfl, by decide, parks_parked, parks_parked⟩

/-- The save of an assignment fails, the petition is seen assigned all the same, and after a restart
its code is assigned another address. -/
theorem unsaved_assignment_reassigned : ∃ uses,
    Machine.Along (Run.step queueRuntime) Clocked (Run.opened 0 noon) uses ∧
      ¬ Machine.Along (Run.step queueRuntime) (Atomic queueRuntime) (Run.opened 0 noon) uses ∧
      ¬ Machine.Throughout (Run.step queueRuntime) OneAddress (Run.opened 0 noon) uses := by
  refine ⟨[filing, naming "alice@example.org" false, .get "0428-9173-5560" noon true,
    .restart 0 noon true, naming "bob@example.org" true], ?_, ?_, ?_⟩
  · exact ⟨clocked_noon rfl rfl, clocked_noon rfl rfl, clocked_noon rfl rfl, clocked_noon rfl rfl,
      clocked_noon rfl rfl, trivial⟩
  · rintro ⟨-, hatomic, -⟩
    rw [step_filing] at hatomic
    have hchanged := (hatomic.failed .notSaved rfl noon (by decide)).1
    have haddress := congrArg (List.map Petition.address) hchanged
    exact absurd haddress (show ["alice@example.org"] ≠ [""] by decide)
  · intro hone
    have hlast := hone.last
    rw [Machine.run_cons, step_filing] at hlast
    have haddress := hlast "0428-9173-5560" "alice@example.org" "bob@example.org" List.mem_cons_self
      (List.mem_cons_of_mem _ List.mem_cons_self)
    exact absurd haddress (by decide)

end Unsaved

end Dmcn.PetitionQueue
