import Mathlib.Data.List.Induction
import Mathlib.Order.Lattice

/-! Histories of versioned registers. Each register is read, written (perhaps only if its version is
the expected one) and removed; a history lists what took effect, in order. -/

namespace Register

section Each

variable {β : Type} {P : List β → β → Prop}

def Each (P : List β → β → Prop) (h : List β) : Prop :=
  ∀ past a rest, h = past ++ a :: rest → P past a

theorem each_nil : Each P [] := by
  intro past a rest h
  simp at h

theorem each_concat {h : List β} {a : β} : Each P (h ++ [a]) ↔ Each P h ∧ P h a := by
  constructor
  · intro hall
    refine ⟨fun past b rest heq => hall past b (rest ++ [a]) ?_, hall h a [] rfl⟩
    rw [heq, List.append_assoc]
    rfl
  · rintro ⟨hall, hlast⟩ past b rest heq
    rcases List.eq_nil_or_concat rest with rfl | ⟨rest', c, rfl⟩
    · obtain ⟨rfl, hb⟩ := List.append_inj' heq rfl
      cases hb
      exact hlast
    · have hassoc : h ++ [a] = (past ++ b :: rest') ++ [c] := by
        rw [heq, List.append_assoc]
        simp
      obtain ⟨rfl, -⟩ := List.append_inj' hassoc rfl
      exact hall past b rest' rfl

end Each

variable {κ α V : Type}

inductive Act (κ α V : Type) where
  | read (k : κ) (x : α)
  | write (k : κ) (expected : Option V) (x : α)
  | remove (k : κ)

def Act.Changes (k : κ) : Act κ α V → Prop
  | .read _ _ => False
  | .write k' _ _ => k' = k
  | .remove k' => k' = k

section Law

variable [LT V] (version : α → V)

/-- A write takes a version above all that its register had, and one that compares versions finds
its register as every read of the version left it. -/
def Lawful (past : List (Act κ α V)) : Act κ α V → Prop
  | .read _ _ => True
  | .remove _ => True
  | .write k expected x =>
    (∀ e y, .write k e y ∈ past → version y < version x) ∧
    ∀ v, expected = some v → ∀ before y since, past = before ++ .read k y :: since → version y = v →
      ∀ a ∈ since, ¬ a.Changes k

def NoLostUpdate (h : List (Act κ α V)) : Prop := Each (Lawful version) h

end Law

variable [DecidableEq κ]

def after (k : κ) (held : Option α) : Act κ α V → Option α
  | .read _ _ => held
  | .write k' _ x => if k' = k then some x else held
  | .remove k' => if k' = k then none else held

def held (k : κ) (h : List (Act κ α V)) : Option α := h.foldl (after k) none

def Truthful (past : List (Act κ α V)) : Act κ α V → Prop
  | .read k x => held k past = some x
  | .write _ _ _ => True
  | .remove k => held k past ≠ none

section Held

variable {k : κ} {h past since : List (Act κ α V)} {x : α}

theorem held_append : held k (past ++ since) = since.foldl (after k) (held k past) :=
  List.foldl_append

@[simp] theorem held_concat (a : Act κ α V) : held k (h ++ [a]) = after k (held k h) a :=
  held_append

theorem after_of_not_changes {a : Act κ α V} (ha : ¬ a.Changes k) (o : Option α) :
    after k o a = o := by
  cases a with
  | read k' y => rfl
  | write k' e y => exact if_neg ha
  | remove k' => exact if_neg ha

theorem held_of_unchanged (h : ∀ a ∈ since, ¬ a.Changes k) :
    held k (past ++ since) = held k past := by
  rw [held_append]
  generalize held k past = o
  induction since with
  | nil => rfl
  | cons a since ih =>
    rw [List.foldl_cons, after_of_not_changes (h a (List.mem_cons_self ..))]
    exact ih fun b hb => h b (List.mem_cons_of_mem _ hb)

theorem exists_write_of_held (hheld : held k h = some x) :
    ∃ past e rest, h = past ++ .write k e x :: rest ∧ ∀ a ∈ rest, ¬ a.Changes k := by
  induction h using List.reverseRecOn with
  | nil => cases hheld
  | append_singleton h a ih =>
    rw [held_concat] at hheld
    by_cases ha : a.Changes k
    · cases a with
      | read k' y => cases ha
      | write k' e y =>
        cases ha
        rw [after, if_pos rfl] at hheld
        cases hheld
        exact ⟨h, e, [], rfl, by simp⟩
      | remove k' =>
        cases ha
        rw [after, if_pos rfl] at hheld
        cases hheld
    · rw [after_of_not_changes ha] at hheld
      obtain ⟨past, e, rest, rfl, hrest⟩ := ih hheld
      refine ⟨past, e, rest ++ [a], by simp, fun b hb => ?_⟩
      rcases List.mem_append.mp hb with hb | hb
      · exact hrest b hb
      · rw [List.mem_singleton.mp hb]
        exact ha

theorem mem_of_held (hheld : held k h = some x) : ∃ e, Act.write k e x ∈ h := by
  obtain ⟨past, e, rest, rfl, -⟩ := exists_write_of_held hheld
  exact ⟨e, List.mem_append_right _ (List.mem_cons_self ..)⟩

theorem held_of_removed (hwrite : ∀ e y, Act.write k e y ∉ since) (hremove : Act.remove k ∈ since) :
    held k (past ++ since) = none := by
  induction since using List.reverseRecOn with
  | nil => cases hremove
  | append_singleton since a ih =>
    rw [← List.append_assoc, held_concat]
    cases a with
    | read k' y =>
      have hmem : Act.remove k ∈ since := by simpa using hremove
      exact ih (fun e z hz => hwrite e z (List.mem_append_left _ hz)) hmem
    | write k' e y =>
      have hk : k' ≠ k := by
        rintro rfl
        exact hwrite e y (List.mem_append_right _ (List.mem_singleton.mpr rfl))
      have hmem : Act.remove k ∈ since := by simpa using hremove
      rw [after, if_neg hk]
      exact ih (fun e z hz => hwrite e z (List.mem_append_left _ hz)) hmem
    | remove k' =>
      unfold after
      dsimp only
      split
      · rfl
      · next hk =>
        have hmem : Act.remove k ∈ since := by simpa [Ne.symm hk] using hremove
        exact ih (fun e z hz => hwrite e z (List.mem_append_left _ hz)) hmem

theorem held_of_not_removed (hpast : held k past ≠ none) (hremove : Act.remove k ∉ since) :
    held k (past ++ since) ≠ none := by
  induction since using List.reverseRecOn with
  | nil => simpa using hpast
  | append_singleton since a ih =>
    have hprev := ih fun hmem => hremove (List.mem_append_left _ hmem)
    rw [← List.append_assoc, held_concat]
    cases a with
    | read k' y => exact hprev
    | write k' e y =>
      unfold after
      dsimp only
      split
      · exact Option.some_ne_none y
      · exact hprev
    | remove k' =>
      have hk : k' ≠ k := by
        rintro rfl
        exact hremove (List.mem_append_right _ (List.mem_singleton.mpr rfl))
      rwa [after, if_neg hk]

omit [DecidableEq κ] in
theorem mem_write_or_remove (hchange : ∃ a ∈ since, a.Changes k) :
    (∃ e y, Act.write k e y ∈ since) ∨ Act.remove k ∈ since := by
  obtain ⟨a, ha, hk⟩ := hchange
  cases a with
  | read k' y => cases hk
  | write k' e y =>
    cases hk
    exact .inl ⟨e, y, ha⟩
  | remove k' =>
    cases hk
    exact .inr ha

theorem written_iff_removed (htrue : Each Truthful h) (hheld : held k h = none) :
    (∃ e y, Act.write k e y ∈ h) ↔ Act.remove k ∈ h := by
  constructor
  · rintro ⟨e, y, hy⟩
    obtain ⟨past, rest, rfl⟩ := List.append_of_mem hy
    have hwritten : held k (past ++ [Act.write k e y]) ≠ none := by
      rw [held_concat, after, if_pos rfl]
      exact Option.some_ne_none y
    by_contra hremove
    have hrest : Act.remove k ∉ rest := fun hmem =>
      hremove (List.mem_append_right _ (List.mem_cons_of_mem _ hmem))
    have hfull := held_of_not_removed hwritten hrest
    rw [List.append_assoc] at hfull
    exact hfull hheld
  · intro hremove
    obtain ⟨past, rest, rfl⟩ := List.append_of_mem hremove
    obtain ⟨y, hy⟩ := Option.ne_none_iff_exists'.mp (htrue past _ rest rfl)
    obtain ⟨e, hmem⟩ := mem_of_held hy
    exact ⟨e, y, List.mem_append_left _ hmem⟩

end Held

section Versions

variable [LinearOrder V] {version : α → V} {k : κ} {h : List (Act κ α V)}

theorem version_le_held {x y : α} {e : Option V} (hlaw : NoLostUpdate version h)
    (hheld : held k h = some x) (hy : Act.write k e y ∈ h) : version y ≤ version x := by
  obtain ⟨past, e', rest, rfl, hrest⟩ := exists_write_of_held hheld
  have hlast := hlaw past _ rest rfl
  rcases List.mem_append.mp hy with hy | hy
  · exact le_of_lt (hlast.1 e y hy)
  · rcases List.mem_cons.mp hy with heq | hy
    · cases heq
      exact le_rfl
    · exact absurd rfl (hrest _ hy)

/-- Where no write has a higher version, whoever read that version read what is held, or the
register was removed since. -/
theorem unchanged_since_read_iff {v : V} (hlaw : NoLostUpdate version h) (htrue : Each Truthful h)
    (htop : ∀ e y, Act.write k e y ∈ h → version y ≤ v) :
    (∀ before y since, h = before ++ .read k y :: since → version y = v → ∀ a ∈ since,
      ¬ a.Changes k) ↔
      ((∃ y, Act.read k y ∈ h ∧ version y = v) → held k h ≠ none) := by
  constructor
  · rintro hall ⟨y, hy, hv⟩
    obtain ⟨before, since, rfl⟩ := List.append_of_mem hy
    have hread : held k before = some y := htrue before _ since rfl
    have hunchanged : ∀ a ∈ Act.read k y :: since, ¬ a.Changes k := by
      intro a ha
      rcases List.mem_cons.mp ha with rfl | ha
      · exact id
      · exact hall before y since rfl hv a ha
    rw [held_of_unchanged hunchanged, hread]
    exact Option.some_ne_none y
  · rintro hstill before y since rfl hv
    have hread : held k before = some y := htrue before _ since rfl
    obtain ⟨e₀, hwritten⟩ := mem_of_held hread
    have hwrite : ∀ e z, Act.write k e z ∉ Act.read k y :: since := by
      intro e z hz
      rcases List.mem_cons.mp hz with heq | hz
      · cases heq
      obtain ⟨middle, rest, rfl⟩ := List.append_of_mem hz
      have hlast := hlaw (before ++ Act.read k y :: middle) (.write k e z) rest (by simp)
      have hlt := hlast.1 e₀ y (List.mem_append_left _ hwritten)
      have hle := htop e z (by simp)
      exact absurd (hv ▸ hlt) (not_lt.mpr hle)
    have hheld := hstill ⟨y, List.mem_append_right _ (List.mem_cons_self ..), hv⟩
    intro a ha hchange
    rcases mem_write_or_remove ⟨a, List.mem_cons_of_mem (Act.read k y) ha, hchange⟩ with ⟨e, z, hz⟩
      | hremove
    · exact hwrite e z hz
    · exact hheld (held_of_removed hwrite hremove)

end Versions

end Register
