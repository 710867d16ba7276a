import Mathlib.Data.List.AList
import Mathlib.Data.List.Nodup

/-! An index of items by a key: a map from keys to lists, in which no list is empty. It files a
queue when each key has the items of the queue with that key, in the queue's order. -/

abbrev Index (K α : Type) := AList fun _ : K => List α

namespace Index

variable {K α : Type} [DecidableEq K]

def items (m : Index K α) (k : K) : List α := (m.lookup k).getD []

def add (m : Index K α) (k : K) (x : α) : Index K α := m.insert k (m.items k ++ [x])

def keep (m : Index K α) (k : K) (p : α → Bool) : Index K α :=
  if ((m.items k).filter p).isEmpty then m.erase k else m.insert k ((m.items k).filter p)

def all (m : Index K α) : List α := m.entries.flatMap Sigma.snd

def visit {β : K → Type} (pick : List K) (m : AList β) : List K :=
  if pick.isPerm m.keys then pick else m.keys

theorem perm_visit {β : K → Type} (pick : List K) (m : AList β) : (visit pick m).Perm m.keys := by
  unfold visit
  split
  · next h => exact List.isPerm_iff.mp h
  · exact List.Perm.refl _

theorem visit_of_perm {β : K → Type} {pick : List K} {m : AList β} (h : pick.Perm m.keys) :
    visit pick m = pick :=
  if_pos (List.isPerm_iff.mpr h)

theorem items_add (m : Index K α) (k k' : K) (x : α) :
    (m.add k x).items k' = if k' = k then m.items k ++ [x] else m.items k' := by
  unfold add items
  split
  · next h =>
    subst h
    rw [AList.lookup_insert]
    rfl
  · next h => rw [AList.lookup_insert_ne h]

theorem items_keep (m : Index K α) (k k' : K) (p : α → Bool) :
    (m.keep k p).items k' = if k' = k then (m.items k).filter p else m.items k' := by
  by_cases hk : k' = k
  · subst hk
    rw [if_pos rfl, keep]
    split
    · next h =>
      unfold items at h ⊢
      rw [AList.lookup_erase]
      exact (List.isEmpty_iff.mp h).symm
    · unfold items
      rw [AList.lookup_insert]
      rfl
  · rw [if_neg hk, keep]
    split
    · unfold items
      rw [AList.lookup_erase_ne hk]
    · unfold items
      rw [AList.lookup_insert_ne hk]

theorem mem_keys_of_items {m : Index K α} {k : K} {x : α} (h : x ∈ m.items k) : k ∈ m.keys := by
  unfold items at h
  rw [← AList.mem_keys, ← AList.lookup_isSome]
  cases hlookup : m.lookup k with
  | none =>
    rw [hlookup] at h
    cases h
  | some l => rfl

theorem mem_all {m : Index K α} {x : α} : x ∈ m.all ↔ ∃ k, x ∈ m.items k := by
  unfold all
  rw [List.mem_flatMap]
  constructor
  · rintro ⟨⟨k, l⟩, hentry, hx⟩
    have hlookup := AList.mem_lookup_iff.mpr hentry
    refine ⟨k, ?_⟩
    unfold items
    rw [Option.mem_def.mp hlookup]
    exact hx
  · rintro ⟨k, hx⟩
    unfold items at hx
    cases hlookup : m.lookup k with
    | none =>
      rw [hlookup] at hx
      cases hx
    | some l =>
      rw [hlookup] at hx
      exact ⟨⟨k, l⟩, AList.mem_lookup_iff.mp hlookup, hx⟩

structure Files (key : α → K) (m : Index K α) (q : List α) : Prop where
  items_eq : ∀ k, m.items k = q.filter fun x => decide (key x = k)
  ne_nil : ∀ k, m.lookup k ≠ some []

variable {key : α → K} {m : Index K α} {q : List α}

theorem files_empty : Files key (∅ : Index K α) [] where
  items_eq _ := rfl
  ne_nil k := by
    rw [AList.lookup_empty]
    simp

theorem Files.mem_items (h : Files key m q) {k : K} {x : α} : x ∈ m.items k ↔ x ∈ q ∧
    key x = k := by
  rw [h.items_eq, List.mem_filter, decide_eq_true_iff]

theorem Files.mem_all (h : Files key m q) {x : α} : x ∈ m.all ↔ x ∈ q := by
  rw [Index.mem_all]
  constructor
  · rintro ⟨k, hx⟩
    exact (h.mem_items.mp hx).1
  · intro hx
    exact ⟨key x, h.mem_items.mpr ⟨hx, rfl⟩⟩

theorem Files.add (h : Files key m q) (x : α) : Files key (m.add (key x) x) (q ++ [x]) where
  items_eq k := by
    rw [items_add, List.filter_append]
    split
    · next hk => simp [hk, h.items_eq]
    · next hk => simp [Ne.symm hk, h.items_eq]
  ne_nil k := by
    by_cases hk : k = key x
    · subst hk
      rw [Index.add, AList.lookup_insert]
      simp
    · rw [Index.add, AList.lookup_insert_ne hk]
      exact h.ne_nil k

theorem Files.keep (h : Files key m q) {k : K} {p : α → Bool}
    (hp : ∀ x ∈ q, p x = false → key x = k) :
    Files key (m.keep k p) (q.filter p) where
  items_eq k' := by
    rw [items_keep]
    split
    · next hk =>
      subst hk
      rw [h.items_eq, List.filter_filter, List.filter_filter]
      exact List.filter_congr fun x _ => Bool.and_comm ..
    · next hk =>
      rw [h.items_eq, List.filter_filter]
      apply List.filter_congr
      intro x hx
      cases hpass : p x with
      | true => rw [Bool.and_true]
      | false =>
        rw [Bool.and_false, decide_eq_false_iff_not, hp x hx hpass]
        exact Ne.symm hk
  ne_nil k' := by
    unfold Index.keep
    by_cases hk : k' = k
    · subst hk
      split
      · rw [AList.lookup_erase]
        simp
      · next hne =>
        rw [AList.lookup_insert]
        intro hnil
        exact hne (List.isEmpty_iff.mpr (Option.some.inj hnil))
    · split
      · rw [AList.lookup_erase_ne hk]
        exact h.ne_nil k'
      · rw [AList.lookup_insert_ne hk]
        exact h.ne_nil k'

theorem Files.nodup_all (h : Files key m q) (hq : q.Nodup) : m.all.Nodup := by
  unfold all
  rw [List.nodup_flatMap]
  have hitems : ∀ e ∈ m.entries, e.2 = m.items e.1 := by
    intro e he
    unfold items
    rw [Option.mem_def.mp (AList.mem_lookup_iff.mpr he)]
    rfl
  constructor
  · intro e he
    rw [hitems e he, h.items_eq]
    exact hq.filter _
  · have hkeys := List.pairwise_map.mp m.keys_nodup
    refine hkeys.imp_of_mem ?_
    intro e e' he he' hne x hx hx'
    rw [hitems e he] at hx
    rw [hitems e' he'] at hx'
    exact hne ((h.mem_items.mp hx).2.symm.trans (h.mem_items.mp hx').2)

theorem Files.perm_all (h : Files key m q) (hq : q.Nodup) : m.all.Perm q :=
  (List.perm_ext_iff_of_nodup (h.nodup_all hq) hq).mpr fun _ => h.mem_all

end Index
