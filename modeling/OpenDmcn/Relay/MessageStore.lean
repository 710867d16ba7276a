import OpenDmcn.Lib.Bytes
import OpenDmcn.Lib.Index
import OpenDmcn.Lib.Run
import OpenDmcn.Lib.Time
import Mathlib.Logic.Function.Basic

/-! The transit store of a relay (`store.go`), in memory: queued copies of envelopes, indexed by
recipient and by hash. Both indexes hold pointers to the same copies; the one field that is written
after a copy is made, `Fetched`, is kept by pointer. -/

namespace Dmcn

open Go

structure StoredEnvelope (Env : Type) where
  ptr : ℕ
  envelope : Env
  hash : Fixed 32
  addr : String
  storedAt : Time

def StoredEnvelope.pair {Env : Type} (se : StoredEnvelope Env) : String × Fixed 32 :=
  (se.addr, se.hash)

structure MessageStore (Env : Type) where
  byAddr : Index String (StoredEnvelope Env)
  byHash : Index (Fixed 32) (StoredEnvelope Env)
  count : ℤ
  /-- `Fetched` of the copy at each pointer. -/
  fetched : ℕ → Bool
  /-- How many copies were ever made. -/
  allocated : ℕ

inductive StoreError where
  | envelopeNotFound
  deriving DecidableEq

namespace MessageStore

variable {Env : Type}

def empty : MessageStore Env := ⟨∅, ∅, 0, fun _ => false, 0⟩

def index (s : MessageStore Env) (se : StoredEnvelope Env) : MessageStore Env :=
  { s with byAddr := s.byAddr.add se.addr se, byHash := s.byHash.add se.hash se, count := s.count +
    1 }

def find (s : MessageStore Env) (addr : String) (hash : Fixed 32) : Option (StoredEnvelope Env) :=
  (s.byHash.items hash).find? fun se => se.addr == addr

def unindex (s : MessageStore Env) (se : StoredEnvelope Env) : MessageStore Env :=
  { s with
    byAddr := s.byAddr.keep se.addr fun e => e.ptr != se.ptr
    byHash := s.byHash.keep se.hash fun e => e.ptr != se.ptr
    count := s.count - 1 }

def add (s : MessageStore Env) (now : Time) (addr : String) (env : Env) (hash : Fixed 32) :
    MessageStore Env :=
  index { s with fetched := Function.update s.fetched s.allocated false, allocated := s.allocated +
    1 }
    ⟨s.allocated, env, hash, addr, now⟩

def store (s : MessageStore Env) (now : Time) (recipientAddr : String) (env : Env)
    (hash : Fixed 32) :
    MessageStore Env :=
  match s.find recipientAddr hash with
  | some _ => s
  | none => s.add now recipientAddr env hash

def queued (s : MessageStore Env) (recipientAddr : String) : List (StoredEnvelope Env) :=
  s.byAddr.items recipientAddr

def fetch (s : MessageStore Env) (recipientAddr : String) : List Env × List (Fixed 32) :=
  ((s.queued recipientAddr).map StoredEnvelope.envelope,
    (s.queued recipientAddr).map StoredEnvelope.hash)

def markOne (recipientAddr : String) (s : MessageStore Env) (hash : Fixed 32) : MessageStore Env :=
  match s.find recipientAddr hash with
  | some se => if s.fetched se.ptr then s
    else { s with fetched := Function.update s.fetched se.ptr true }
  | none => s

def markFetched (s : MessageStore Env) (recipientAddr : String) (hashes : List (Fixed 32)) :
    MessageStore Env :=
  hashes.foldl (markOne recipientAddr) s

def takeFetched (s : MessageStore Env) (hash : Fixed 32) : MessageStore Env × List
    (StoredEnvelope Env) :=
  let taken := (s.byHash.items hash).filter fun se => s.fetched se.ptr
  (taken.foldl unindex s, taken)

def ack (s : MessageStore Env) (hash : Fixed 32) : MessageStore Env × Except StoreError Unit :=
  let (s', taken) := s.takeFetched hash
  (s', if taken.isEmpty then .error .envelopeNotFound else .ok ())

def takeOne (s : MessageStore Env) (recipientAddr : String) (hash : Fixed 32) :
    MessageStore Env × List (StoredEnvelope Env) :=
  match s.find recipientAddr hash with
  | none => (s, [])
  | some se => (s.unindex se, [se])

def remove (s : MessageStore Env) (recipientAddr : String) (hash : Fixed 32) :
    MessageStore Env × Except StoreError Unit :=
  let (s', taken) := s.takeOne recipientAddr hash
  (s', if taken.isEmpty then .error .envelopeNotFound else .ok ())

def takeExpired (s : MessageStore Env) (cutoffFor : String → Time) (pick : List String) :
    MessageStore Env × List (StoredEnvelope Env) :=
  let taken := (Index.visit pick s.byAddr).flatMap fun addr =>
    (s.byAddr.items addr).filter fun se => se.storedAt.before (cutoffFor addr)
  (taken.foldl unindex s, taken)

def expire (s : MessageStore Env) (cutoffFor : String → Time) (pick : List String) :
    MessageStore Env × ℕ :=
  let (s', taken) := s.takeExpired cutoffFor pick
  (s', taken.length)

end MessageStore

/-- A call that may change the store, with the clock or the iteration order it meets. -/
inductive StoreCall (Env : Type) where
  | store (now : Time) (recipientAddr : String) (env : Env) (hash : Fixed 32)
  | markFetched (recipientAddr : String) (hashes : List (Fixed 32))
  | ack (hash : Fixed 32)
  | remove (recipientAddr : String) (hash : Fixed 32)
  | expire (cutoffFor : String → Time) (pick : List String)

namespace MessageStore

variable {Env : Type}

def call (s : MessageStore Env) : StoreCall Env → MessageStore Env
  | .store now recipientAddr env hash => s.store now recipientAddr env hash
  | .markFetched recipientAddr hashes => s.markFetched recipientAddr hashes
  | .ack hash => (s.ack hash).1
  | .remove recipientAddr hash => (s.remove recipientAddr hash).1
  | .expire cutoffFor pick => (s.expire cutoffFor pick).1

structure Holds (s : MessageStore Env) (q : List (StoredEnvelope Env)) : Prop where
  byAddr : s.byAddr.Files StoredEnvelope.addr q
  byHash : s.byHash.Files StoredEnvelope.hash q
  count : s.count = q.length
  ordered : q.Pairwise fun x y => x.ptr < y.ptr
  below : ∀ x ∈ q, x.ptr < s.allocated
  single : (q.map StoredEnvelope.pair).Nodup

theorem holds_empty : (empty : MessageStore Env).Holds [] where
  byAddr := Index.files_empty
  byHash := Index.files_empty
  count := rfl
  ordered := .nil
  below := by simp
  single := .nil

variable {s : MessageStore Env} {q : List (StoredEnvelope Env)}

theorem Holds.nodup (h : s.Holds q) : q.Nodup :=
  h.ordered.imp fun hlt heq => by
    rw [heq] at hlt
    exact lt_irrefl _ hlt

theorem Holds.nodup_ptr (h : s.Holds q) : (q.map StoredEnvelope.ptr).Nodup :=
  List.Pairwise.map _ (fun _ _ hlt => hlt.ne) h.ordered

theorem Holds.eq_of_ptr (h : s.Holds q) {x y : StoredEnvelope Env} (hx : x ∈ q) (hy : y ∈ q)
    (hptr : x.ptr = y.ptr) : x = y := List.inj_on_of_nodup_map h.nodup_ptr hx hy hptr

theorem Holds.eq_of_pair (h : s.Holds q) {x y : StoredEnvelope Env} (hx : x ∈ q) (hy : y ∈ q)
    (hpair : x.pair = y.pair) : x = y := List.inj_on_of_nodup_map h.single hx hy hpair

variable {addr : String} {hash : Fixed 32}

theorem mem_of_find {se : StoredEnvelope Env} (h : s.find addr hash = some se)
    : se ∈ s.byHash.items hash ∧ se.addr = addr := by
  have haddr := List.find?_some h
  exact ⟨List.mem_of_find?_eq_some h, eq_of_beq haddr⟩

theorem Holds.find_eq_some (h : s.Holds q) {se : StoredEnvelope Env} :
    s.find addr hash = some se ↔ se ∈ q ∧ se.pair = (addr, hash) := by
  constructor
  · intro hfind
    obtain ⟨hitem, haddr⟩ := mem_of_find hfind
    obtain ⟨hmem, hhash⟩ := h.byHash.mem_items.mp hitem
    exact ⟨hmem, Prod.ext haddr hhash⟩
  · rintro ⟨hmem, hpair⟩
    cases hpair
    cases hfind : s.find se.addr se.hash with
    | none =>
      have hno := List.find?_eq_none.mp hfind se (h.byHash.mem_items.mpr ⟨hmem, rfl⟩)
      simp at hno
    | some se' =>
      obtain ⟨hitem, haddr⟩ := mem_of_find hfind
      obtain ⟨hmem', hhash⟩ := h.byHash.mem_items.mp hitem
      rw [h.eq_of_pair hmem' hmem (Prod.ext haddr hhash)]

theorem Holds.find_eq_none (h : s.Holds q) :
    s.find addr hash = none ↔ ∀ x ∈ q, x.pair ≠ (addr, hash) := by
  rw [Option.eq_none_iff_forall_ne_some]
  constructor
  · intro hnone x hx hpair
    exact hnone x (h.find_eq_some.mpr ⟨hx, hpair⟩)
  · intro hnone x hfind
    obtain ⟨hx, hpair⟩ := h.find_eq_some.mp hfind
    exact hnone x hx hpair

theorem find_store_self (now : Time) (addr : String) (env : Env) (hash : Fixed 32) :
    ((s.store now addr env hash).find addr hash).isSome = true := by
  unfold store
  cases hfind : s.find addr hash with
  | some se =>
    dsimp only
    rw [hfind]
    rfl
  | none =>
    simp [add, index, find, Index.items_add]

theorem find_store_of_find (now : Time) (addr : String) (env : Env) (hash : Fixed 32)
    {addr' : String} {hash' : Fixed 32} (h : (s.find addr' hash').isSome = true) :
    ((s.store now addr env hash).find addr' hash').isSome = true := by
  unfold store
  cases hfind : s.find addr hash with
  | some se => exact h
  | none =>
    rw [find, List.find?_isSome] at h
    obtain ⟨se, hse, haddr⟩ := h
    rw [find, List.find?_isSome]
    refine ⟨se, ?_, haddr⟩
    simp only [add, index, Index.items_add]
    split
    · next heq =>
      rw [← heq]
      exact List.mem_append_left _ hse
    · exact hse

theorem Holds.add (h : s.Holds q) (now : Time) (env : Env) (hnew : ∀ x ∈ q, x.pair ≠ (addr, hash)) :
    (s.add now addr env hash).Holds (q ++ [⟨s.allocated, env, hash, addr, now⟩]) where
  byAddr := h.byAddr.add _
  byHash := h.byHash.add _
  count := by
    change s.count + 1 = _
    rw [h.count, List.length_append]
    rfl
  ordered := by
    rw [List.pairwise_append]
    refine ⟨h.ordered, List.pairwise_singleton _ _, ?_⟩
    intro x hx y hy
    rw [List.mem_singleton.mp hy]
    exact h.below x hx
  below := by
    intro x hx
    change x.ptr < s.allocated + 1
    rcases List.mem_append.mp hx with hx | hx
    · exact Nat.lt_succ_of_lt (h.below x hx)
    · rw [List.mem_singleton.mp hx]
      exact Nat.lt_succ_self _
  single := by
    rw [List.map_append, List.nodup_append]
    refine ⟨h.single, List.nodup_singleton _, ?_⟩
    intro p hp p' hp' heq
    obtain ⟨x, hx, rfl⟩ := List.mem_map.mp hp
    rw [List.map_singleton, List.mem_singleton] at hp'
    exact hnew x hx (heq.trans hp')

theorem Holds.unindex (h : s.Holds q) {se : StoredEnvelope Env} (hse : se ∈ q) :
    (s.unindex se).Holds (q.filter fun x => x.ptr != se.ptr) where
  byAddr := h.byAddr.keep fun x hx hp => by
    rw [h.eq_of_ptr hx hse (by simpa using hp)]
  byHash := h.byHash.keep fun x hx hp => by
    rw [h.eq_of_ptr hx hse (by simpa using hp)]
  count := by
    have hone : (q.filter fun x => !(x.ptr != se.ptr)).length = 1 := by
      have hcount := List.count_eq_one_of_mem h.nodup_ptr (List.mem_map_of_mem hse)
      rw [List.count_eq_countP, List.countP_map, List.countP_eq_length_filter] at hcount
      refine Eq.trans (congrArg List.length (List.filter_congr fun x _ => ?_)) hcount
      simp [bne]
    have hsplit := List.length_eq_length_filter_add (l := q) fun x => x.ptr != se.ptr
    change s.count - 1 = _
    rw [h.count, hsplit, hone]
    simp
  ordered := h.ordered.filter _
  below := fun x hx => h.below x (List.mem_of_mem_filter hx)
  single := h.single.sublist (List.filter_sublist.map _)

theorem fetched_unindexAll (s : MessageStore Env) (taken : List (StoredEnvelope Env)) :
    (taken.foldl MessageStore.unindex s).fetched = s.fetched ∧
    (taken.foldl MessageStore.unindex s).allocated = s.allocated := by
  induction taken generalizing s with
  | nil => exact ⟨rfl, rfl⟩
  | cons se taken ih => exact ih (s.unindex se)

theorem Holds.unindexAll (h : s.Holds q) {taken : List (StoredEnvelope Env)}
    (htaken : ∀ x ∈ taken, x ∈ q) (hnodup : taken.Nodup) :
    (taken.foldl MessageStore.unindex s).Holds
      (q.filter fun x => decide (x.ptr ∉ taken.map StoredEnvelope.ptr)) := by
  induction taken generalizing s q with
  | nil => simpa using h
  | cons se taken ih =>
    obtain ⟨hnotin, hrest⟩ := List.nodup_cons.mp hnodup
    have hse := htaken se (List.mem_cons_self ..)
    have hstill : ∀ x ∈ taken, x ∈ q.filter fun x => x.ptr != se.ptr := by
      intro x hx
      have hxq := htaken x (List.mem_cons_of_mem _ hx)
      refine List.mem_filter.mpr ⟨hxq, ?_⟩
      rw [bne_iff_ne]
      intro hptr
      rw [h.eq_of_ptr hxq hse hptr] at hx
      exact hnotin hx
    have hnext := ih (h.unindex hse) hstill hrest
    rw [List.filter_filter] at hnext
    rw [List.foldl_cons]
    convert hnext using 2
    funext x
    rw [Bool.eq_iff_iff]
    simp only [List.map_cons, List.mem_cons, not_or, decide_eq_true_eq, Bool.and_eq_true,
      bne_iff_ne]
    exact and_comm

theorem Holds.takeAll (h : s.Holds q) {taken : List (StoredEnvelope Env)}
    {p : StoredEnvelope Env → Bool} (htaken : ∀ x, x ∈ taken ↔ x ∈ q ∧ p x = true)
    (hnodup : taken.Nodup) :
    (taken.foldl MessageStore.unindex s).Holds (q.filter fun x => !p x) := by
  have hall := h.unindexAll (fun x hx => ((htaken x).mp hx).1) hnodup
  convert hall using 1
  apply List.filter_congr
  intro x hx
  rw [Bool.eq_iff_iff, Bool.not_eq_true', decide_eq_true_iff]
  constructor
  · intro hno hmem
    obtain ⟨y, hy, hptr⟩ := List.mem_map.mp hmem
    obtain ⟨hyq, hpy⟩ := (htaken y).mp hy
    rw [h.eq_of_ptr hyq hx hptr, hno] at hpy
    cases hpy
  · intro hmem
    rw [Bool.eq_false_iff]
    intro hpx
    exact hmem (List.mem_map_of_mem ((htaken x).mpr ⟨hx, hpx⟩))

variable {x : StoredEnvelope Env}

theorem mem_takeFetched (h : s.Holds q) :
    x ∈ (s.takeFetched hash).2 ↔ x ∈ q ∧ (decide (x.hash = hash) && s.fetched x.ptr) = true := by
  unfold takeFetched
  rw [List.mem_filter, h.byHash.mem_items, Bool.and_eq_true, decide_eq_true_iff, and_assoc]

theorem Holds.takeFetched (h : s.Holds q) (hash : Fixed 32) : (s.takeFetched hash).1.Holds
    (q.filter fun x => !(decide (x.hash = hash) && s.fetched x.ptr)) := by
  refine h.takeAll (fun x => mem_takeFetched h) ?_
  rw [h.byHash.items_eq]
  exact (h.nodup.filter _).filter _

theorem mem_takeOne (h : s.Holds q) :
    x ∈ (s.takeOne addr hash).2 ↔ x ∈ q ∧ decide (x.pair = (addr, hash)) = true := by
  rw [decide_eq_true_iff, ← h.find_eq_some]
  unfold takeOne
  cases s.find addr hash with
  | none => simp
  | some se => simp [eq_comm]

theorem takeOne_fst (s : MessageStore Env) (addr : String) (hash : Fixed 32) :
    (s.takeOne addr hash).1 = (s.takeOne addr hash).2.foldl MessageStore.unindex s := by
  unfold takeOne
  cases s.find addr hash with
  | none => rfl
  | some se => rfl

theorem Holds.takeOne (h : s.Holds q) (addr : String) (hash : Fixed 32) :
    (s.takeOne addr hash).1.Holds (q.filter fun x => !decide (x.pair = (addr, hash))) := by
  rw [takeOne_fst]
  refine h.takeAll (fun x => mem_takeOne h) ?_
  unfold MessageStore.takeOne
  cases s.find addr hash with
  | none => exact List.nodup_nil
  | some se => exact List.nodup_singleton _

theorem mem_takeExpired (h : s.Holds q) {cutoffFor : String → Time} {pick : List String} :
    x ∈ (s.takeExpired cutoffFor pick).2 ↔
      x ∈ q ∧ x.storedAt.before (cutoffFor x.addr) = true := by
  unfold takeExpired
  simp only [List.mem_flatMap, List.mem_filter]
  constructor
  · rintro ⟨addr, -, hx, hbefore⟩
    obtain ⟨hmem, rfl⟩ := h.byAddr.mem_items.mp hx
    exact ⟨hmem, hbefore⟩
  · rintro ⟨hmem, hbefore⟩
    have hitem := h.byAddr.mem_items.mpr ⟨hmem, rfl⟩
    refine ⟨x.addr, ?_, hitem, hbefore⟩
    exact (Index.perm_visit pick s.byAddr).mem_iff.mpr (Index.mem_keys_of_items hitem)

theorem Holds.takeExpired (h : s.Holds q) (cutoffFor : String → Time) (pick : List String) :
    (s.takeExpired cutoffFor pick).1.Holds
      (q.filter fun x => !x.storedAt.before (cutoffFor x.addr)) := by
  refine h.takeAll (fun x => mem_takeExpired h) ?_
  rw [List.nodup_flatMap]
  constructor
  · intro addr _
    rw [h.byAddr.items_eq]
    exact (h.nodup.filter _).filter _
  · have hvisit : (Index.visit pick s.byAddr).Nodup :=
      (Index.perm_visit pick s.byAddr).nodup_iff.mpr s.byAddr.keys_nodup
    refine hvisit.imp ?_
    intro addr addr' hne x hx hx'
    have haddr := (h.byAddr.mem_items.mp (List.mem_of_mem_filter hx)).2
    have haddr' := (h.byAddr.mem_items.mp (List.mem_of_mem_filter hx')).2
    exact hne (haddr.symm.trans haddr')

theorem Holds.markOne (h : s.Holds q) (addr : String) (hash : Fixed 32) :
    (markOne addr s hash).Holds q ∧ (markOne addr s hash).allocated = s.allocated ∧
    ∀ x ∈ q, (markOne addr s hash).fetched x.ptr = true ↔
      s.fetched x.ptr = true ∨ x.pair = (addr, hash) := by
  unfold MessageStore.markOne
  cases hfind : s.find addr hash with
  | none =>
    refine ⟨h, rfl, fun x hx => ?_⟩
    have hno := h.find_eq_none.mp hfind x hx
    simp [hno]
  | some se =>
    obtain ⟨hse, hpair⟩ := h.find_eq_some.mp hfind
    dsimp only
    split
    · next hset =>
      refine ⟨h, rfl, fun x hx => ⟨.inl, ?_⟩⟩
      rintro (hx' | hx')
      · exact hx'
      · rw [h.eq_of_pair hx hse (hx'.trans hpair.symm)]
        exact hset
    · refine ⟨⟨h.byAddr, h.byHash, h.count, h.ordered, h.below, h.single⟩, rfl, fun x hx => ?_⟩
      by_cases hptr : x.ptr = se.ptr
      · have hsame := h.eq_of_ptr hx hse hptr
        simp [hsame, hpair]
      · have hother : x.pair ≠ (addr, hash) := by
          intro hx'
          exact hptr (congrArg StoredEnvelope.ptr (h.eq_of_pair hx hse (hx'.trans hpair.symm)))
        simp [Function.update, hptr, hother]

theorem Holds.markFetched (h : s.Holds q) (addr : String) (hashes : List (Fixed 32)) :
    (s.markFetched addr hashes).Holds q ∧ (s.markFetched addr hashes).allocated = s.allocated ∧
    ∀ x ∈ q, (s.markFetched addr hashes).fetched x.ptr = true ↔
      s.fetched x.ptr = true ∨ x.addr = addr ∧ x.hash ∈ hashes := by
  induction hashes generalizing s with
  | nil => exact ⟨h, rfl, fun x _ => by simp [MessageStore.markFetched]⟩
  | cons hash hashes ih =>
    obtain ⟨hone, halloc, hflag⟩ := h.markOne addr hash
    obtain ⟨hrest, halloc', hflag'⟩ := ih hone
    refine ⟨hrest, halloc'.trans halloc, fun x hx => ?_⟩
    change ((MessageStore.markOne addr s hash).markFetched addr hashes).fetched x.ptr = true ↔ _
    rw [hflag' x hx, hflag x hx, List.mem_cons, StoredEnvelope.pair, Prod.mk.injEq]
    tauto

def next (s : MessageStore Env) (q : List (StoredEnvelope Env)) :
    StoreCall Env → List (StoredEnvelope Env)
  | .store now addr env hash =>
    if q.any fun x => decide (x.pair = (addr, hash)) then q else q ++
      [⟨s.allocated, env, hash, addr, now⟩]
  | .markFetched _ _ => q
  | .ack hash => q.filter fun x => !(decide (x.hash = hash) && s.fetched x.ptr)
  | .remove addr hash => q.filter fun x => !decide (x.pair = (addr, hash))
  | .expire cutoffFor _ => q.filter fun x => !x.storedAt.before (cutoffFor x.addr)

theorem Holds.call (h : s.Holds q) (c : StoreCall Env) : (s.call c).Holds (s.next q c) := by
  cases c with
  | store now addr env hash =>
    change (s.store now addr env hash).Holds _
    unfold MessageStore.store next
    cases hfind : s.find addr hash with
    | none =>
      have hnew := h.find_eq_none.mp hfind
      dsimp only
      rw [if_neg]
      · exact h.add now env hnew
      · simpa using hnew
    | some se =>
      obtain ⟨hse, hpair⟩ := h.find_eq_some.mp hfind
      dsimp only
      rw [if_pos]
      · exact h
      · exact List.any_eq_true.mpr ⟨se, hse, by simpa using hpair⟩
  | markFetched addr hashes => exact (h.markFetched addr hashes).1
  | ack hash => exact h.takeFetched hash
  | remove addr hash => exact h.takeOne addr hash
  | expire cutoffFor pick => exact h.takeExpired cutoffFor pick

def copies (s : MessageStore Env) : List (StoredEnvelope Env) := s.byAddr.all

theorem Holds.mem_copies (h : s.Holds q) : x ∈ s.copies ↔ x ∈ q :=
  h.byAddr.mem_all

abbrev run (s : MessageStore Env) (cs : List (StoreCall Env)) : MessageStore Env :=
  Machine.run MessageStore.call s cs

theorem holds_run (cs : List (StoreCall Env)) : ∃ q, ((empty : MessageStore Env).run cs).Holds
    q := by
  have hreach : Machine.Reachable MessageStore.call (empty : MessageStore Env) (empty.run cs) :=
    ⟨cs, rfl⟩
  exact hreach.invariant (Q := fun s => ∃ q, s.Holds q) ⟨[], holds_empty⟩
    fun s c ⟨q, h⟩ => ⟨s.next q c, h.call c⟩

theorem fetched_call_of_not_mark (s : MessageStore Env) {c : StoreCall Env} {n : ℕ}
    (hn : n < s.allocated) (hc : ∀ addr hashes, c ≠ .markFetched addr hashes) :
    (s.call c).fetched n = s.fetched n := by
  cases c with
  | store now addr env hash =>
    change (s.store now addr env hash).fetched n = _
    unfold MessageStore.store
    cases s.find addr hash with
    | none => exact Function.update_of_ne hn.ne _ _
    | some se => rfl
  | markFetched addr hashes => exact absurd rfl (hc addr hashes)
  | ack hash => exact congrFun (fetched_unindexAll s _).1 n
  | remove addr hash =>
    change (s.takeOne addr hash).1.fetched n = _
    rw [takeOne_fst]
    exact congrFun (fetched_unindexAll s _).1 n
  | expire cutoffFor pick => exact congrFun (fetched_unindexAll s _).1 n

def Takes (s : MessageStore Env) (c : StoreCall Env) (x : StoredEnvelope Env) : Prop :=
  c = .remove x.addr x.hash ∨
  (∃ cutoffFor pick, c = .expire cutoffFor pick ∧ x.storedAt.before (cutoffFor x.addr) = true) ∨
  c = .ack x.hash ∧ s.fetched x.ptr = true

theorem takes_of_not_mem_next {c : StoreCall Env} (hx : x ∈ q) (hgone : x ∉ s.next q c)
    : s.Takes c x := by
  cases c with
  | store now addr env hash =>
    refine absurd ?_ hgone
    unfold next
    dsimp only
    split
    · exact hx
    · exact List.mem_append_left _ hx
  | markFetched addr hashes => exact absurd hx hgone
  | ack hash =>
    simp only [next, List.mem_filter, hx, true_and, Bool.not_eq_true, Bool.not_eq_false',
      Bool.and_eq_true, decide_eq_true_eq] at hgone
    obtain ⟨rfl, hfetched⟩ := hgone
    exact .inr (.inr ⟨rfl, hfetched⟩)
  | remove addr hash =>
    simp only [next, List.mem_filter, hx, true_and, Bool.not_eq_true, Bool.not_eq_false',
      decide_eq_true_eq] at hgone
    cases hgone
    exact .inl rfl
  | expire cutoffFor pick =>
    simp only [next, List.mem_filter, hx, true_and, Bool.not_eq_true, Bool.not_eq_false'] at hgone
    exact .inr (.inl ⟨cutoffFor, pick, rfl, hgone⟩)

theorem mem_or_new_of_mem_next {c : StoreCall Env} (hx : x ∈ s.next q c) :
    x ∈ q ∨ ∃ now addr env hash, c = .store now addr env hash ∧ x.ptr = s.allocated := by
  cases c with
  | store now addr env hash =>
    unfold next at hx
    dsimp only at hx
    split at hx
    · exact .inl hx
    · rcases List.mem_append.mp hx with hx | hx
      · exact .inl hx
      · rw [List.mem_singleton.mp hx]
        exact .inr ⟨now, addr, env, hash, rfl, rfl⟩
  | markFetched addr hashes => exact .inl hx
  | ack hash => exact .inl (List.mem_of_mem_filter hx)
  | remove addr hash => exact .inl (List.mem_of_mem_filter hx)
  | expire cutoffFor pick => exact .inl (List.mem_of_mem_filter hx)

theorem allocated_le_call (h : s.Holds q) (c : StoreCall Env) :
    s.allocated ≤ (s.call c).allocated := by
  cases c with
  | store now addr env hash =>
    change s.allocated ≤ (s.store now addr env hash).allocated
    unfold MessageStore.store
    cases s.find addr hash with
    | none => exact Nat.le_succ _
    | some se => exact le_rfl
  | markFetched addr hashes => exact (h.markFetched addr hashes).2.1.ge
  | ack hash => exact (fetched_unindexAll s _).2.ge
  | remove addr hash =>
    change s.allocated ≤ (s.takeOne addr hash).1.allocated
    rw [takeOne_fst]
    exact (fetched_unindexAll s _).2.ge
  | expire cutoffFor pick => exact (fetched_unindexAll s _).2.ge

theorem fetched_store_new {now : Time} {env : Env} (h : s.Holds q)
    (hx : x ∈ s.next q (.store now addr env hash)) (hnew : x ∉ q) :
    (s.store now addr env hash).fetched x.ptr = false := by
  unfold next at hx
  dsimp only at hx
  split at hx
  · exact absurd hx hnew
  · next hnone =>
    have hfind : s.find addr hash = none := by
      rw [h.find_eq_none]
      simpa using hnone
    have hptr : x.ptr = s.allocated := by
      rcases List.mem_append.mp hx with hx | hx
      · exact absurd hx hnew
      · rw [List.mem_singleton.mp hx]
    unfold MessageStore.store
    rw [hfind, hptr]
    exact Function.update_self _ _ _

theorem marked_of_fetched {cs : List (StoreCall Env)}
    (hx : x ∈ ((empty : MessageStore Env).run cs).copies)
    (hfetched : ((empty : MessageStore Env).run cs).fetched x.ptr = true) :
    ∃ us hashes vs, cs = us ++ .markFetched x.addr hashes :: vs ∧ x.hash ∈ hashes ∧
      x ∈ ((empty : MessageStore Env).run us).copies := by
  have hfirst : ¬ (x ∈ (empty : MessageStore Env).copies ∧
    (empty : MessageStore Env).fetched x.ptr = true) := by
    rintro ⟨-, hflag⟩
    cases hflag
  obtain ⟨us, c, vs, rfl, hno, hmem, hflag⟩ := Machine.exists_step_of_run
    (Q := fun s : MessageStore Env => x ∈ s.copies ∧ s.fetched x.ptr = true) hfirst ⟨hx, hfetched⟩
  obtain ⟨q, h⟩ := holds_run us
  rw [(h.call c).mem_copies] at hmem
  have hin : x ∈ q := by
    by_contra hout
    rcases mem_or_new_of_mem_next hmem with hin | ⟨now, addr, env, hash, rfl, -⟩
    · exact hout hin
    · have hunset := fetched_store_new h hmem hout
      rw [show (Machine.run call empty us).call (.store now addr env hash) =
        (Machine.run call empty us).store now addr env hash from rfl, hunset] at hflag
      cases hflag
  have hunset : (Machine.run call (empty : MessageStore Env) us).fetched x.ptr ≠ true :=
    fun hset => hno ⟨h.mem_copies.mpr hin, hset⟩
  cases c with
  | markFetched addr hashes =>
    rcases ((h.markFetched addr hashes).2.2 x hin).mp hflag with hset | ⟨rfl, hhash⟩
    · exact absurd hset hunset
    · exact ⟨us, hashes, vs, rfl, hhash, h.mem_copies.mpr hin⟩
  | store | ack | remove | expire =>
    rw [fetched_call_of_not_mark _ (h.below x hin) (by simp)] at hflag
    exact absurd hflag hunset

theorem taken_of_gone {us vs : List (StoreCall Env)}
    (hx : x ∈ ((empty : MessageStore Env).run us).copies)
    (hgone : x ∉ ((empty : MessageStore Env).run (us ++ vs)).copies) :
    ∃ mid c rest, vs = mid ++ c :: rest ∧ x ∈ ((empty : MessageStore Env).run (us ++ mid)).copies ∧
      ((empty : MessageStore Env).run (us ++ mid)).Takes c x := by
  rw [run, Machine.run_append] at hgone
  obtain ⟨mid, c, rest, rfl, hin, hout⟩ := Machine.exists_step_of_run
    (Q := fun s : MessageStore Env => x ∉ s.copies) (not_not.mpr hx) hgone
  rw [← Machine.run_append, not_not] at hin
  rw [← Machine.run_append] at hout
  obtain ⟨q, h⟩ := holds_run (us ++ mid)
  rw [(h.call c).mem_copies] at hout
  exact ⟨mid, c, rest, rfl, hin, takes_of_not_mem_next (h.mem_copies.mp hin) hout⟩

theorem mem_copies_of_run {us vs : List (StoreCall Env)}
    (hx : x ∈ ((empty : MessageStore Env).run (us ++ vs)).copies)
    (hptr : x.ptr < ((empty : MessageStore Env).run us).allocated) :
    x ∈ ((empty : MessageStore Env).run us).copies := by
  induction vs generalizing us with
  | nil => simpa using hx
  | cons c vs ih =>
    obtain ⟨q, h⟩ := holds_run us
    have hrun : (empty : MessageStore Env).run (us ++ [c]) =
        ((empty : MessageStore Env).run us).call c := by
      rw [run, Machine.run_append]
      rfl
    have hlater : x ∈ ((empty : MessageStore Env).run (us ++ [c])).copies := by
      apply ih
      · simpa using hx
      · rw [hrun]
        exact hptr.trans_le (allocated_le_call h c)
    rw [hrun, (h.call c).mem_copies] at hlater
    rcases mem_or_new_of_mem_next hlater with hin | ⟨-, -, -, -, -, hnew⟩
    · exact h.mem_copies.mpr hin
    · exact absurd hnew hptr.ne

/-- The representation: both indexes hold the same copies, each under its own recipient and hash,
one for each recipient and hash; `count` counts them, and no list is empty. -/
structure Coherent (s : MessageStore Env) : Prop where
  same : s.byAddr.all.Perm s.byHash.all
  once : (s.copies.map StoredEnvelope.pair).Nodup
  count : s.count = s.copies.length
  byAddr : ∀ addr x, x ∈ s.byAddr.items addr ↔ x ∈ s.copies ∧ x.addr = addr
  byHash : ∀ hash x, x ∈ s.byHash.items hash ↔ x ∈ s.copies ∧ x.hash = hash
  byAddr_ne : ∀ addr, s.byAddr.lookup addr ≠ some []
  byHash_ne : ∀ hash, s.byHash.lookup hash ≠ some []

theorem Holds.coherent (h : s.Holds q) : s.Coherent := by
  have haddr := h.byAddr.perm_all h.nodup
  have hhash := h.byHash.perm_all h.nodup
  refine ⟨haddr.trans hhash.symm, ?_, ?_, ?_, ?_, h.byAddr.ne_nil, h.byHash.ne_nil⟩
  · exact (haddr.map _).nodup_iff.mpr h.single
  · rw [h.count, copies, haddr.length_eq]
  · intro addr x
    rw [h.byAddr.mem_items, h.mem_copies]
  · intro hash x
    rw [h.byHash.mem_items, h.mem_copies]

/-- After the calls `earlier`, which left `x` in the store, the call `c` is one that takes it: a
removal of that pair, an expiry past its time, or an acknowledgement after that copy was marked. -/
def RemovedBy (earlier : List (StoreCall Env)) (c : StoreCall Env) (x : StoredEnvelope Env) :
    Prop :=
  c = .remove x.addr x.hash ∨
  (∃ cutoffFor pick, c = .expire cutoffFor pick ∧ x.storedAt.before (cutoffFor x.addr) = true) ∨
  c = .ack x.hash ∧ ∃ us hashes vs, earlier = us ++ .markFetched x.addr hashes :: vs ∧
    x.hash ∈ hashes ∧ x ∈ ((empty : MessageStore Env).run us).copies

def QueuedBefore (cs : List (StoreCall Env)) (x y : StoredEnvelope Env) : Prop :=
  ∃ us, us <+: cs ∧ x ∈ ((empty : MessageStore Env).run us).copies ∧
    y ∉ ((empty : MessageStore Env).run us).copies

theorem queuedBefore_of_ptr {cs : List (StoreCall Env)} {x y : StoredEnvelope Env}
    (hx : x ∈ ((empty : MessageStore Env).run cs).copies)
    (hy : y ∈ ((empty : MessageStore Env).run cs).copies) (hptr : x.ptr < y.ptr) :
    QueuedBefore cs x y := by
  have hfirst : y ∉ (empty : MessageStore Env).copies := by
    rw [holds_empty.mem_copies]
    exact List.not_mem_nil
  obtain ⟨us, c, vs, rfl, hno, hyes⟩ := Machine.exists_step_of_run
    (Q := fun s : MessageStore Env => y ∈ s.copies) hfirst hy
  refine ⟨us, List.prefix_append us _, mem_copies_of_run hx ?_, hno⟩
  obtain ⟨q, h⟩ := holds_run us
  rw [(h.call c).mem_copies] at hyes
  rcases mem_or_new_of_mem_next hyes with hin | ⟨-, -, -, -, -, hnew⟩
  · exact absurd (h.mem_copies.mpr hin) hno
  · rw [← hnew]
    exact hptr

theorem Holds.ack (h : s.Holds q) (hash : Fixed 32) :
    (∀ addr, (s.ack hash).1.queued addr =
      (s.queued addr).filter fun x => !(decide (x.hash = hash) && s.fetched x.ptr)) ∧
    (s.ack hash).1.fetched = s.fetched ∧
    ((s.ack hash).2 = .ok () ↔ ∃ x ∈ s.copies, x.hash = hash ∧ s.fetched x.ptr = true) := by
  refine ⟨?_, (fetched_unindexAll s _).1, ?_⟩
  · intro addr
    change (s.takeFetched hash).1.byAddr.items addr = (s.byAddr.items addr).filter _
    rw [(h.takeFetched hash).byAddr.items_eq, h.byAddr.items_eq, List.filter_filter,
      List.filter_filter]
    exact List.filter_congr fun x _ => Bool.and_comm ..
  · have hresult : (s.ack hash).2 = .ok () ↔ (s.takeFetched hash).2 ≠ [] := by
      unfold MessageStore.ack
      dsimp only
      split
      · next hnil => simp [List.isEmpty_iff.mp hnil]
      · next hne => simpa using hne
    have hmem : ∀ x, x ∈ (s.takeFetched hash).2 ↔ x ∈ s.copies ∧ x.hash = hash ∧
        s.fetched x.ptr = true := by
      intro x
      rw [mem_takeFetched h, h.mem_copies, Bool.and_eq_true, decide_eq_true_iff]
    rw [hresult]
    constructor
    · intro hne
      obtain ⟨x, hx⟩ := List.exists_mem_of_ne_nil _ hne
      exact ⟨x, (hmem x).mp hx⟩
    · rintro ⟨x, hx⟩
      exact List.ne_nil_of_mem ((hmem x).mpr hx)

theorem fetched_markFetched_of_fetched (s : MessageStore Env) (addr : String)
    (hashes : List (Fixed 32)) {n : ℕ} (hset : s.fetched n = true) :
    (s.markFetched addr hashes).fetched n = true := by
  induction hashes generalizing s with
  | nil => exact hset
  | cons hash hashes ih =>
    apply ih
    unfold MessageStore.markOne
    split
    · next se hfind =>
      split
      · exact hset
      · by_cases hn : n = se.ptr
        · rw [hn]
          exact Function.update_self _ _ _
        · exact (Function.update_of_ne hn _ _).trans hset
    · exact hset

theorem fetched_run_of_fetched (h : s.Holds q) {n : ℕ} (hn : n < s.allocated)
    (hset : s.fetched n = true) (cs : List (StoreCall Env)) : (s.run cs).fetched n = true := by
  induction cs generalizing s q with
  | nil => exact hset
  | cons c cs ih =>
    refine ih (h.call c) (hn.trans_le (allocated_le_call h c)) ?_
    cases c with
    | markFetched addr hashes => exact fetched_markFetched_of_fetched s addr hashes hset
    | store | ack | remove | expire =>
      rw [fetched_call_of_not_mark s hn (by simp)]
      exact hset

theorem fetched_of_marked {us vs : List (StoreCall Env)} {hashes : List (Fixed 32)}
    (hx : x ∈ ((empty : MessageStore Env).run us).copies) (hhash : x.hash ∈ hashes) :
    ((empty : MessageStore Env).run (us ++ .markFetched x.addr hashes :: vs)).fetched x.ptr =
      true := by
  obtain ⟨q, h⟩ := holds_run us
  have hin : x ∈ q := h.mem_copies.mp hx
  obtain ⟨hmarked, halloc, hflag⟩ := h.markFetched x.addr hashes
  rw [run, Machine.run_append]
  refine fetched_run_of_fetched hmarked ?_ ((hflag x hin).mpr (.inr ⟨rfl, hhash⟩)) vs
  rw [halloc]
  exact h.below x hin

/-- A call takes a copy exactly if it is one that may: a removal of its pair and an expiry past its
time do take it, and so does an acknowledgement of its hash once it was marked. -/
theorem gone_iff {cs : List (StoreCall Env)} (hx : x ∈ ((empty : MessageStore Env).run cs).copies)
    (c : StoreCall Env) :
    x ∉ (((empty : MessageStore Env).run cs).call c).copies ↔ RemovedBy cs c x := by
  obtain ⟨q, h⟩ := holds_run cs
  have hin : x ∈ q := h.mem_copies.mp hx
  rw [(h.call c).mem_copies]
  constructor
  · intro hgone
    rcases takes_of_not_mem_next hin hgone with hremove | hexpire | ⟨hack, hfetched⟩
    · exact .inl hremove
    · exact .inr (.inl hexpire)
    · exact .inr (.inr ⟨hack, marked_of_fetched hx hfetched⟩)
  · rintro (rfl | ⟨cutoffFor, pick, rfl, hbefore⟩ | ⟨rfl, us, hashes, vs, rfl, hhash, hmarked⟩)
    · simp [next, StoredEnvelope.pair]
    · simp [next, hbefore]
    · simp [next, fetched_of_marked hmarked hhash]

/-- Over every sequence of calls: the two indexes agree; what is stored stays until a call removes
it that may, and is gone after one; a copy is marked by the call that names it; an acknowledgement
takes the fetched copies of its hash, from every recipient's queue, and no others; and a recipient
is shown its own copies, in the order in which they came. -/
theorem message_store_delivers (cs : List (StoreCall Env)) :
    ((empty : MessageStore Env).run cs).Coherent ∧
    (∀ now addr env hash,
      ∃ x ∈ (((empty : MessageStore Env).run cs).store now addr env hash).copies,
      x.pair = (addr, hash)) ∧
    (∀ us vs x, cs = us ++ vs → x ∈ ((empty : MessageStore Env).run us).copies →
      x ∉ ((empty : MessageStore Env).run cs).copies → ∃ mid c rest, vs = mid ++ c :: rest ∧
        x ∈ ((empty : MessageStore Env).run (us ++ mid)).copies ∧ RemovedBy (us ++ mid) c x) ∧
    (∀ x ∈ ((empty : MessageStore Env).run cs).copies,
      (∀ c, x ∉ (((empty : MessageStore Env).run cs).call c).copies ↔ RemovedBy cs c x) ∧
      ∀ addr hashes, (((empty : MessageStore Env).run cs).markFetched addr hashes).fetched x.ptr =
        true ↔
        ((empty : MessageStore Env).run cs).fetched x.ptr = true ∨ x.addr = addr ∧
          x.hash ∈ hashes) ∧
    (∀ hash,
      (∀ addr, (((empty : MessageStore Env).run cs).ack hash).1.queued addr =
        (((empty : MessageStore Env).run cs).queued addr).filter fun x =>
          !(decide (x.hash = hash) && ((empty : MessageStore Env).run cs).fetched x.ptr)) ∧
      (((empty : MessageStore Env).run cs).ack hash).1.fetched =
        ((empty : MessageStore Env).run cs).fetched ∧
      ((((empty : MessageStore Env).run cs).ack hash).2 = .ok () ↔
        ∃ x ∈ ((empty : MessageStore Env).run cs).copies, x.hash = hash ∧
          ((empty : MessageStore Env).run cs).fetched x.ptr = true)) ∧
    ∀ addr, ∃ queue : List (StoredEnvelope Env),
      ((empty : MessageStore Env).run cs).fetch addr =
        (queue.map StoredEnvelope.envelope, queue.map StoredEnvelope.hash) ∧
      (∀ x, x ∈ queue ↔ x ∈ ((empty : MessageStore Env).run cs).copies ∧ x.addr = addr) ∧
      queue.Nodup ∧ queue.Pairwise (QueuedBefore cs) := by
  obtain ⟨q, h⟩ : ∃ q, ((empty : MessageStore Env).run cs).Holds q := holds_run cs
  refine ⟨h.coherent, ?_, ?_, fun x hx => ⟨gone_iff hx, fun addr hashes => ?_⟩, h.ack, ?_⟩
  · intro now addr env hash
    have hnext := h.call (.store now addr env hash)
    by_cases hheld : ∃ x ∈ q, x.pair = (addr, hash)
    · obtain ⟨x, hx, hpair⟩ := hheld
      refine ⟨x, hnext.mem_copies.mpr ?_, hpair⟩
      by_contra hgone
      rcases takes_of_not_mem_next hx hgone with hremove | ⟨cutoffFor, pick, hexpire, hbefore⟩
        | hack
      · cases hremove
      · cases hexpire
      · cases hack.1
    · refine ⟨⟨((empty : MessageStore Env).run cs).allocated, env, hash, addr, now⟩,
        hnext.mem_copies.mpr ?_, rfl⟩
      unfold next
      dsimp only
      rw [if_neg]
      · exact List.mem_append_right _ (List.mem_singleton_self _)
      · simpa using hheld
  · rintro us vs x rfl hx hgone
    obtain ⟨mid, c, rest, hsplit, hin, htakes⟩ := taken_of_gone hx hgone
    refine ⟨mid, c, rest, hsplit, hin, ?_⟩
    rcases htakes with hremove | hexpire | ⟨hack, hfetched⟩
    · exact .inl hremove
    · exact .inr (.inl hexpire)
    · exact .inr (.inr ⟨hack, marked_of_fetched hin hfetched⟩)
  · exact (h.markFetched addr hashes).2.2 x (h.mem_copies.mp hx)
  · intro addr
    have hmem : ∀ x, x ∈ ((empty : MessageStore Env).run cs).queued addr ↔
        x ∈ ((empty : MessageStore Env).run cs).copies ∧ x.addr = addr := by
      intro x
      rw [h.mem_copies]
      exact h.byAddr.mem_items
    have hfile : ((empty : MessageStore Env).run cs).queued addr = q.filter fun x =>
        decide (x.addr = addr) :=
      h.byAddr.items_eq addr
    refine ⟨_, rfl, hmem, ?_, ?_⟩
    · rw [hfile]
      exact h.nodup.filter _
    · have hordered : (((empty : MessageStore Env).run cs).queued addr).Pairwise fun x y =>
          x.ptr < y.ptr := by
        rw [hfile]
        exact h.ordered.filter _
      refine hordered.imp_of_mem ?_
      intro x y hx hy hptr
      exact queuedBefore_of_ptr ((hmem x).mp hx).1 ((hmem y).mp hy).1 hptr

end MessageStore

end Dmcn
