import OpenDmcn.Web.FeedInvariant

/-! The rows keep up with the change feed. At the position that they are said to be at, in memory
and on the device, they show every message of the account that is in the mailbox and none that had
been deleted by then, whatever the order of the awaits. -/

namespace Dmcn.Web.Feed

open Machine

variable {a : Account} {log : List Change} {c : Change} {n m F : ℕ} {rows rows' : List Hash}
  {h : Hash}

section Listing

variable {l : Listing} {seen pending : List Hash}

theorem ListingOk.next
    (hl : ListingOk a log F rows { l with seen := seen, pending := h :: pending } none) :
    ListingOk a log F rows { l with seen := seen ++ [h], pending := pending } (some h) := by
  constructor
  · intro h' hl'
    rcases hl.listed h' hl' with hs | hp | ho
    · exact .inl (List.mem_append_left _ hs)
    · rcases List.mem_cons.mp hp with rfl | hrest
      · exact .inl (by simp)
      · exact .inr (.inl hrest)
    · exact .inr (.inr ho)
  · intro h' hs hl'
    rcases List.mem_append.mp hs with hold | hnew
    · exact .inl ((hl.drawn h' hold hl').resolve_right (by simp))
    · exact .inr (by rw [List.mem_singleton.mp hnew])
  · intro h' hs
    rcases List.mem_append.mp hs with hold | hnew
    · exact hl.seen h' hold
    · rw [List.mem_singleton.mp hnew]
      exact hl.pending h (by simp)
  · intro h' hp
    exact hl.pending h' (List.mem_cons_of_mem _ hp)
  · exact hl.last

theorem ListingOk.opened (hl : ListingOk a log F rows l (some h)) (hh : Live a log F h → h ∈ rows) :
    ListingOk a log F rows l none := by
  refine ⟨hl.listed, fun h' hs hl' => ?_, hl.seen, hl.pending, hl.last⟩
  rcases hl.drawn h' hs hl' with hrow | ho
  · exact .inl hrow
  · cases ho
    exact .inl (hh hl')

namespace Client

variable {cl : Client}

theorem Ok.enterPending (hok : cl.Ok a log F) (hres : cl.restored = true)
    (hready : Ready a log F cl.ring)
    (hl : ListingOk a log F cl.rows { l with seen := seen, pending := pending } none) :
    Ok a log F (cl.enterPending a l seen pending).1 ∧
      (cl.enterPending a l seen pending).1.restored = true ∧
      (cl.enterPending a l seen pending).1.ring = cl.ring ∧
      ListOk a log F (cl.enterPending a l seen pending).1.rows cl.ring
        (cl.enterPending a l seen pending).2 ∧
      ((cl.enterPending a l seen pending).2 = .done →
        Good a log (cl.enterPending a l seen pending).1.rows F) := by
  induction pending generalizing cl seen with
  | nil =>
    rw [Client.enterPending]
    split
    · next hlast =>
      have howed : l.owed = [] := hl.last hlast
      have hseen : ∀ h, Live a log F h → h ∈ seen := by
        intro h hh
        have hlisted := hl.listed h hh
        simpa [howed] using hlisted
      have hr : Reshapes a log F cl.rows (cl.rows.filter (· ∈ seen)) :=
        Reshapes.filter fun h _ hh => by simpa using hseen h hh
      have hpruned : Ok a log F { cl with rows := cl.rows.filter (· ∈ seen) } :=
        hok.reshape hres hr cl.raw
      refine ⟨hpruned.emit.persist, by simpa using hres, by simp, trivial, fun _ => ?_⟩
      rw [persist_rows]
      refine Good.reshape ⟨?_, ?_⟩ le_rfl reshapes_emit
      · intro h hh
        have hrow : h ∈ cl.rows := (hl.drawn h (hseen h hh) hh).resolve_right (by simp)
        exact List.mem_filter.mpr ⟨hrow, by simpa using hseen h hh⟩
      · intro h hh
        exact hl.seen h (by simpa using (List.mem_filter.mp hh).2)
    · split
      · refine ⟨hok.emit, by simpa using hres, by simp, ⟨hready, ?_, rfl⟩, by simp⟩
        exact ListingOk.reshape ⟨hl.listed, hl.drawn, hl.seen, hl.pending, hl.last⟩ reshapes_emit
      · exact ⟨hok, hres, rfl, ⟨hready, ⟨hl.listed, hl.drawn, hl.seen, hl.pending, hl.last⟩, rfl⟩,
          by simp⟩
  | cons h pending ih =>
    have hnext := hl.next
    rw [Client.enterPending]
    split
    · next hh =>
        exact ih (hok.reshape hres Reshapes.refl (addRow cl.raw h)) hres hready
          (hnext.opened fun _ => hh)
    · split
      · next hnone =>
        obtain ⟨r, hr, -⟩ := hready
        exact absurd (hnone.symm.trans hr) (by simp)
      · exact ⟨hok, hres, rfl, ⟨hready, hnext, by simp⟩, by simp⟩

theorem Ok.enter (hok : cl.Ok a log F) (hres : cl.restored = true) (hready : Ready a log F cl.ring)
    (hl : ListingOk a log F cl.rows l none) (n : ℕ) : Ok a log F (cl.enter a n l) := by
  obtain ⟨hok', hres', hring, hphase, hdone⟩ := hok.enterPending hres hready hl
  apply hok'.setList hres' (hring ▸ hphase) hdone
  right
  intro r hr
  obtain ⟨r', hr', hcov⟩ := hready
  rw [hring, hr'] at hr
  exact Option.some.inj hr ▸ hcov

theorem opens_of_live (ho : Ordered a log) (hready : Ready a log F cl.ring) (hl : Live a log F h) :
    cl.opens a h = true := by
  obtain ⟨r, hr, hcov⟩ := hready
  have hkey : a.sealedTo h ∈ r.keys := hcov _ (ho F h hl.stored hl.ours)
  simpa [Client.opens, hr] using hkey

theorem Ok.tickList (hok : cl.Ok a log F) (ho : Ordered a log) (n : ℕ) : Ok a log F
    (cl.tickList a log n) := by
  unfold Client.tickList
  split
  · next r hl =>
    have hres := hok.restored_of_list hl
    have hcov : Covers a log F r := hok.lists n _ hl
    apply (hok.setRing hres hcov).setList hres
    · refine ⟨⟨r, rfl, hcov⟩, ⟨?_, by simp, by simp, by simp, by simp⟩, rfl⟩
      intro h hh
      have hstored : .stored h ∈ log := List.mem_of_mem_take hh.stored
      refine .inr (.inr (List.mem_filter.mpr ⟨List.mem_filterMap.mpr ⟨_, hstored, rfl⟩, ?_⟩))
      simp [held, hstored, hh.kept]
    · simp
    · exact .inr fun r' hr' => Option.some.inj hr' ▸ hcov
  · next l hl =>
    obtain ⟨hready, hlist⟩ := hok.lists n _ hl
    exact hok.enter (hok.restored_of_list hl) hready hlist n
  · next l h hl =>
    obtain ⟨hready, hlist, hseen⟩ := hok.lists n _ hl
    have hres := hok.restored_of_list hl
    split
    · have hphase : ListOk a log F cl.rows cl.ring (.decrypting l h) := ⟨hready, hlist, hseen⟩
      apply hok.setList hres hphase (by simp)
      obtain ⟨r, hr, hcov⟩ := hready
      exact .inr fun r' hr' => Option.some.inj (hr.symm.trans hr') ▸ hcov
    · next hno =>
        exact hok.enter hres hready
          (hlist.opened fun hh => absurd (opens_of_live ho hready hh) hno) n
  · next l h hl =>
    obtain ⟨hready, hlist, hseen⟩ := hok.lists n _ hl
    have hr : Reshapes a log F cl.rows (addRow cl.rows h) := Reshapes.add (hlist.seen h hseen)
    have hres := hok.restored_of_list hl
    apply (hok.reshape hres hr (addRow cl.raw h)).enter hres hready
    exact (hlist.reshape hr).opened fun _ => mem_addRow.mpr (.inr rfl)
  · exact hok

end Client

end Listing

section Taking

variable {cl : Client} {items : List Item}

theorem mem_take_items {e : Change} (hi : ItemsOk log F n items) :
    e ∈ log.take (n + items.length) ↔ e ∈ log.take n ∨ ∃ i ∈ items, i.change = e := by
  induction items generalizing n with
  | nil => simp
  | cons i items ih =>
    obtain ⟨hc, -, hrest⟩ := hi
    rw [List.length_cons, show n + (items.length + 1) = n + 1 +
      items.length by omega, ih hrest, mem_take_succ hc, or_assoc]
    simp [eq_comm]

def quiet (i : Item) : Bool := i.change = .other

def retelling (i : Item) : Bool :=
  match i.change with
  | .aliases _ => true
  | _ => false

def Client.Unlisted (c : Client) : Prop := ∀ l ∈ c.lists, l = .done ∨ l = .failed

instance (c : Client) : Decidable c.Unlisted := inferInstanceAs (Decidable (∀ l ∈ c.lists, _))

def Settled (log : List Change) (F F' : ℕ) : Prop :=
  ∀ e, e ≠ .other → e ∈ log.take F' → e ∈ log.take F

theorem Settled.covers {F' : ℕ} (hs : Settled log F F') {r : Ring} (hr : Covers a log F r) :
    Covers a log F' r := by
  intro k hk
  apply hr
  rw [mem_keysAt] at hk ⊢
  exact hk.imp_right (hs _ (by simp))

theorem Settled.live {F' : ℕ} (hs : Settled log F F') (hl : Live a log F' h) : Live a log F h :=
  ⟨hs _ (by simp) hl.stored, hl.kept, hl.ours, hl.timely⟩

theorem Settled.ready {F' : ℕ} (hs : Settled log F F') {ring : Option Ring}
    (hr : Ready a log F ring) : Ready a log F' ring := by
  obtain ⟨r, hring, hcov⟩ := hr
  exact ⟨r, hring, hs.covers hcov⟩

theorem Settled.listing {F' : ℕ} (hs : Settled log F F') {l : Listing} {o : Option Hash}
    (hl : ListingOk a log F rows l o) :
    ListingOk a log F' rows l o := by
  refine ⟨fun h hh => hl.listed h (hs.live hh), fun h hseen hh => hl.drawn h hseen (hs.live hh), ?_,
    ?_, hl.last⟩
  · intro h hseen hdel
    exact hl.seen h hseen (hs _ (by simp) hdel)
  · intro h hp hdel
    exact hl.pending h hp (hs _ (by simp) hdel)

theorem Settled.list {F' : ℕ} (hs : Settled log F F') {ring : Option Ring} {phase : ListPhase}
    (hl : ListOk a log F rows ring phase) : ListOk a log F' rows ring phase := by
  cases phase with
  | keyring r =>
    cases r with
    | none => trivial
    | some r => exact hs.covers hl
  | done => trivial
  | failed => trivial
  | fetching l => exact ⟨hs.ready hl.1, hs.listing hl.2.1, hl.2.2⟩
  | entering l => exact ⟨hs.ready hl.1, hs.listing hl.2⟩
  | decoding l h => exact ⟨hs.ready hl.1, hs.listing hl.2.1, hl.2.2⟩
  | decrypting l h => exact ⟨hs.ready hl.1, hs.listing hl.2.1, hl.2.2⟩

namespace Client

theorem Unlisted.list (hs : cl.Unlisted) {phase : ListPhase} (hl : cl.lists[n]? = some phase)
    {ring : Option Ring} :
    ListOk a log F rows ring phase := by
  rcases hs phase (List.mem_of_getElem? hl) with rfl | rfl
  · trivial
  · trivial

theorem Ok.covers (hok : cl.Ok a log F) {page : ℕ} {phase : Phase}
    (hp : cl.pass = some ⟨page, phase⟩)
    (hne : ∀ n head ring, phase = .listing n head → cl.lists[n]? ≠ some (.keyring ring)) :
    ∀ r, cl.ring = some r → Covers a log F r := by
  refine hok.ring.resolve_left ?_
  rintro ⟨page', n, head, ring, hp', hl⟩
  rw [hp] at hp'
  injection hp' with hpass
  injection hpass with hpage hphase
  exact hne n head ring hphase hl

theorem Ok.setPass (hok : cl.Ok a log F) (hres : cl.restored = true) {page : ℕ} {phase : Phase}
    (hring : ∀ r, cl.ring = some r → Covers a log F r)
    (hp : PhaseOk a log F cl.rows cl.ring cl.lists phase) :
    Ok a log F { cl with pass := some ⟨page, phase⟩ } where
  within := hok.within
  position := hok.position
  phase page' phase' hpass := by
    injection hpass with hpass
    injection hpass with hpage hphase
    exact hphase ▸ hp
  ring := .inr hring
  lists := hok.lists
  rings := hok.rings
  deletes := hok.deletes
  saves := hok.saves
  idle hno := absurd hres (by simpa using hno)

theorem Ok.setPosition (hok : cl.Ok a log F) (hres : cl.restored = true) (hn : n ≤ F)
    (hg : Good a log cl.rows n) :
    Ok a log F { cl with position := some n } where
  within := hok.within
  position m hm := by
    obtain rfl : n = m := Option.some.inj hm
    exact ⟨hn, hg⟩
  phase := hok.phase
  ring := hok.ring
  lists := hok.lists
  rings := hok.rings
  deletes := hok.deletes
  saves := hok.saves
  idle hno := absurd hres (by simpa using hno)

theorem Ok.resync (hok : cl.Ok a log F) {page head : ℕ}
    (hp : cl.pass = some ⟨page, .answered (.resync head)⟩) (hs : cl.Unlisted)
    (hbuilt : cl.rings = []) : Ok a log (max F head)
      ({ cl with lists := cl.lists ++ [ListPhase.keyring none] }.setPhase
        (.listing cl.lists.length head)) := by
  have hhead : head ≤ log.length := hok.phase _ _ hp
  have hown : (cl.lists ++ [ListPhase.keyring none])[cl.lists.length]? = some (.keyring none) := by
    simp
  constructor
  case within => exact max_le hok.within hhead
  case position =>
    intro n hn
    obtain ⟨hle, hg⟩ := hok.position n hn
    exact ⟨hle.trans (le_max_left ..), hg⟩
  case phase =>
    intro page' phase' hpass
    rw [Client.setPhase, hp] at hpass
    injection hpass with hpass
    injection hpass with hpage hphase
    subst hphase
    refine ⟨le_max_right .., fun hd => ?_⟩
    exact absurd (hown.symm.trans hd) (by simp)
  case ring =>
    exact .inl ⟨page, cl.lists.length, head, none, by rw [Client.setPhase, hp]; rfl, hown⟩
  case lists =>
    intro m phase hm
    rcases getElem?_addList hm with hold | rfl
    · exact hs.list hold
    · trivial
  case rings =>
    intro r hr
    have hmem : some r ∈ cl.rings := hr
    rw [hbuilt] at hmem
    exact absurd hmem (by simp)
  case deletes => exact hok.deletes
  case saves => exact hok.saves
  case idle =>
    exact fun hno => absurd (hok.restored_of_pass hp) (by simpa [Client.setPhase] using hno)

theorem Ok.takeUp (hok : cl.Ok a log F) {page target : ℕ} {more : Bool}
    (hp : cl.pass = some ⟨page, .answered (.events target items more)⟩)
    (hs : items.all quiet = true ∨ cl.Unlisted)
    (hbuilt : items.any retelling = false ∨ cl.rings = []) :
    Ok a log (max F target)
      ({ cl with ring := if items.any retelling then none else cl.ring }.setPhase
        (.applying ⟨target - items.length, items, target, more, false⟩)) := by
  obtain ⟨p, hle, hg, hitems, hlen, htarget⟩ := hok.phase _ _ hp
  have hcovers := hok.covers hp (by simp)
  -- what is new below the bound is among the items
  have hnew : ∀ e, e ∈ log.take (max F target) → e ∈ log.take F ∨ ∃ i ∈ items, i.change = e := by
    intro e he
    rcases le_total F target with hF | hF
    · rw [max_eq_right hF, ← hlen, mem_take_items hitems] at he
      exact he.imp_left (mem_take_mono hle)
    · rw [max_eq_left hF] at he
      exact .inl he
  -- the keys of the account are the same unless the items tell of aliases
  have hsame : items.any retelling = false → ∀ {r : Ring}, Covers a log F r →
      Covers a log (max F target) r := by
    intro hno r hr k hk
    apply hr
    rw [mem_keysAt] at hk ⊢
    refine hk.imp_right fun halias => ?_
    rcases hnew _ halias with hold | ⟨i, hi, he⟩
    · exact hold
    · have hyes : items.any retelling = true := List.any_eq_true.mpr ⟨i, hi, by rw [retelling, he]⟩
      exact absurd (hno.symm.trans hyes) (by simp)
  have hquiet : items.all quiet = true → Settled log F (max F target) := by
    intro hq e hne he
    rcases hnew e he with hold | ⟨i, hi, rfl⟩
    · exact hold
    · exact absurd (of_decide_eq_true (List.all_eq_true.mp hq i hi)) hne
  constructor
  case within => exact max_le hok.within htarget
  case position =>
    intro n hn
    obtain ⟨hn', hg'⟩ := hok.position n hn
    exact ⟨hn'.trans (le_max_left ..), hg'⟩
  case phase =>
    intro page' phase' hpass
    rw [Client.setPhase, hp] at hpass
    injection hpass with hpass
    injection hpass with hpage hphase
    subst hphase
    have hcur : target - items.length = p := by omega
    simp only [PhaseOk, hcur]
    exact ⟨hg, hitems, hlen, le_max_right ..⟩
  case ring =>
    right
    intro r hr
    simp only [Client.setPhase] at hr
    split at hr
    · exact absurd hr (by simp)
    · next hno => exact hsame (by simpa using hno) (hcovers r hr)
  case lists =>
    intro m phase hm
    rcases hs with hq | hstill
    · have hnone : items.any retelling = false := by
        rw [List.any_eq_false]
        intro i hi
        simp [retelling, of_decide_eq_true (List.all_eq_true.mp hq i hi)]
      simp only [Client.setPhase, hnone]
      exact (hquiet hq).list (hok.lists m phase hm)
    · exact hstill.list hm
  case rings =>
    intro r hr
    have hmem : some r ∈ cl.rings := hr
    rcases hbuilt with hno | hnone
    · exact hsame hno (hok.rings r hr)
    · rw [hnone] at hmem
      exact absurd hmem (by simp)
  case deletes => exact hok.deletes
  case saves => exact hok.saves
  case idle =>
    exact fun hno => absurd (hok.restored_of_pass hp) (by simpa [Client.setPhase] using hno)

end Client

end Taking

section Pass

/-- A pass that takes up an answer finds no listing under way if it is told of mail, aliases or a
resync, and no other ring being built if it is told of aliases or a resync. -/
def Client.calm (c : Client) : Bool :=
  match c.pass with
  | some ⟨_, .answered (.resync _)⟩ => c.Unlisted && c.rings.isEmpty
  | some ⟨_, .answered (.events _ items _)⟩ =>
    (items.all quiet || c.Unlisted) && (!items.any retelling || c.rings.isEmpty)
  | _ => true

theorem OpeningOk.next {p : Applying} (ho : OpeningOk a log F rows p h)
    (hh : Live a log F h → h ∈ rows) :
    Good a log rows (p.cur + 1) := by
  apply ho.good.succ ho.change
  · intro h' he hl
    cases he
    have hwithin := ho.within
    have htarget := ho.target
    exact hh (hl.mono (by omega))
  · intro h' he
    exact absurd he (by simp)

namespace Client

variable {cl : Client}

theorem Ok.skip (hok : cl.Ok a log F) (hres : cl.restored = true)
    (hring : ∀ r, cl.ring = some r → Covers a log F r) {p : Applying}
    (ho : OpeningOk a log F cl.rows p h) (hh : Live a log F h → h ∈ cl.rows) (changed : Bool) :
    Ok a log F (cl.applyOn a { p with cur := p.cur + 1, changed := changed }) :=
  hok.applyItems hres hring ho.items ho.target ho.within (ho.next hh)

theorem Ok.tickPass (hok : cl.Ok a log F) (ho : Ordered a log) (hcalm : cl.calm = true) : ∃ F,
    Ok a log F (cl.tickPass a) := by
  cases hp : cl.pass with
  | none =>
    rw [Client.tickPass, hp]
    exact ⟨F, hok⟩
  | some p =>
    obtain ⟨page, phase⟩ := p
    have hres := hok.restored_of_pass hp
    have hphase := hok.phase page phase hp
    rw [Client.calm, hp] at hcalm
    have htick : cl.tickPass a = cl.tickPhase a page phase := by rw [Client.tickPass, hp]
    rw [htick]
    cases phase with
    | asked pos => exact ⟨F, hok⟩
    | answered answer =>
      cases answer with
      | resync head =>
        obtain ⟨hs, hbuilt⟩ := Bool.and_eq_true_iff.mp hcalm
        exact ⟨_, hok.resync hp (of_decide_eq_true hs) (List.isEmpty_iff.mp hbuilt)⟩
      | events target items more =>
        cases items with
        | nil => exact ⟨F, hok.endPass (hok.covers hp (by simp))⟩
        | cons i items =>
          obtain ⟨hs, hbuilt⟩ := Bool.and_eq_true_iff.mp hcalm
          have hlisted : (i :: items).all quiet = true ∨ cl.Unlisted := by
            rwa [Bool.or_eq_true, decide_eq_true_iff] at hs
          have hrings : (i :: items).any retelling = false ∨ cl.rings = [] := by
            rwa [Bool.or_eq_true, Bool.not_eq_true', List.isEmpty_iff] at hbuilt
          exact ⟨_, hok.takeUp hp hlisted hrings⟩
    | applying p =>
      obtain ⟨hg, hitems, hlen, htarget⟩ := hphase
      exact ⟨F, hok.applyItems hres (hok.covers hp (by simp)) hitems hlen htarget hg⟩
    | ensuring p h building =>
      have hring := hok.covers hp (by simp)
      cases building with
      | none =>
        obtain ⟨hopening, hsome⟩ := hphase
        refine ⟨F, ?_⟩
        rw [Client.tickPhase, if_neg hsome]
        exact hok.setPhase hring ⟨hopening, hsome⟩
      | some r =>
        cases r with
        | none => exact ⟨F, hok⟩
        | some r =>
          obtain ⟨hopening, hcov⟩ := hphase
          refine ⟨F, (hok.setRing hres hcov).setPhase ?_ ⟨hopening, by simp [Client.setRing]⟩⟩
          exact fun r' hr' => Option.some.inj hr' ▸ hcov
    | decoding p h =>
      obtain ⟨hopening, hsome⟩ := hphase
      have hring := hok.covers hp (by simp)
      obtain ⟨r, hr⟩ := Option.ne_none_iff_exists'.mp hsome
      have hready : Ready a log F cl.ring := ⟨r, hr, hring r hr⟩
      refine ⟨F, ?_⟩
      rw [Client.tickPhase]
      split
      · exact hok.setPhase hring hopening
      · next hno =>
          exact hok.skip hres hring hopening (fun hl => absurd (opens_of_live ho hready hl) hno)
            p.changed
    | decrypting p h =>
      have hopening : OpeningOk a log F cl.rows p h := hphase
      have hr : Reshapes a log F cl.rows (addRow cl.rows h) := Reshapes.add hopening.kept
      refine ⟨F, ?_⟩
      apply (hok.reshape hres hr (addRow cl.raw h)).skip hres (hok.covers hp (by simp))
        (hopening.reshape hr)
      exact fun _ => mem_addRow.mpr (.inr rfl)
    | applied target more ticket =>
      refine ⟨F, ?_⟩
      rw [Client.tickPhase]
      split
      · exact hok
      · exact hok.setPhase (hok.covers hp (by simp)) hphase
    | listing n head =>
      obtain ⟨hhead, hgood⟩ := hphase
      refine ⟨F, ?_⟩
      rw [Client.tickPhase]
      split
      · next hd =>
        refine hok.setPhase (hok.covers hp ?_) ⟨hhead, hgood hd⟩
        intro n' head' ring he hl
        cases he
        exact absurd (hd.symm.trans hl) (by simp)
      · split
        · next hf =>
          refine hok.endPass (hok.covers hp ?_)
          intro n' head' ring he hl
          cases he
          exact absurd (hf.symm.trans hl) (by simp)
        · exact hok
    | moving target more =>
      obtain ⟨htarget, hg⟩ := hphase
      refine ⟨F, (hok.setPosition hres htarget hg).persist.setPhase ?_ ?_⟩
      · simpa using hok.covers hp (by simp)
      · exact ⟨htarget, by simpa using hg⟩
    | moved target more ticket =>
      have hring := hok.covers hp (by simp)
      refine ⟨F, ?_⟩
      rw [Client.tickPhase]
      split
      · exact hok
      · split
        · apply hok.setPass hres hring
          intro p hpos
          cases hpos
          exact hphase
        · exact hok.endPass hring

end Client

end Pass

section Step

/-- What the rows need of a step to keep up: `identities` answers whoever builds a ring, and passes
and listings keep out of each other's way. -/
def calm (s : System) : Event → Bool
  | .passIdentities ok => ok
  | .listIdentities _ ok => ok
  | .ringIdentities _ ok => ok
  | .tickPass => s.client.calm
  | _ => true

structure System.Ok (a : Account) (s : System) : Prop where
  ordered : Ordered a s.log
  client : ∃ F, s.client.Ok a s.log F
  kept : Consistent a s.log s.kept

theorem covers_keyring (hok : ok = true) : Covers a log F (keyringFor a log ok) := by
  subst hok
  exact fun k hk => keysAt_take_subset hk

theorem Client.ok_fresh (hF : F ≤ log.length) {deletes : List (Hash × DeletePhase)}
    (hd : ∀ h, (h, .gone) ∈ deletes → .deleted h ∈ log) :
    Client.Ok a log F { Client.fresh with deletes := deletes } where
  within := hF
  position n hn := absurd hn (by simp [Client.fresh])
  phase page phase hp := absurd hp (by simp [Client.fresh])
  ring := .inr fun r hr => absurd hr (by simp [Client.fresh])
  lists n phase hl := absurd hl (by simp [Client.fresh])
  rings r hr := absurd hr (by simp [Client.fresh])
  deletes := hd
  saves kept hk := absurd hk (by simp [Client.fresh])
  idle _ := rfl

theorem System.ok_initial : System.Ok a System.initial where
  ordered n h hh := absurd hh (by simp [System.initial])
  client := ⟨0, Client.ok_fresh (Nat.zero_le _) (by simp)⟩
  kept n hn := absurd hn (by simp [System.initial])

variable {s : System}

theorem System.Ok.append (hs : s.Ok a) (hfit : Fits a s.log c) : System.Ok a
    { s with log := s.log ++ [c] } where
  ordered := hs.ordered.append hfit
  client := by
    obtain ⟨F, hok⟩ := hs.client
    exact ⟨F, hok.append hfit⟩
  kept := hs.kept.append hfit

theorem System.Ok.setClient {cl : Client} (hs : s.Ok a) (hok : cl.Ok a s.log F) : System.Ok a
    { s with client := cl } :=
  ⟨hs.ordered, ⟨F, hok⟩, hs.kept⟩

theorem mem_foldl_addRow {kept : List Hash} : h ∈ kept.foldl addRow rows ↔ h ∈ rows ∨ h ∈ kept := by
  induction kept generalizing rows with
  | nil => simp
  | cons h' kept ih =>
    rw [List.foldl_cons, ih, mem_addRow, List.mem_cons, or_assoc]

theorem Client.Ok.restore {cl : Client} {kept : List Hash × Option ℕ} (hok : cl.Ok a log F)
    (hno : cl.restored = false) (hk : Consistent a log kept) :
    Client.Ok a log (kept.2.getD 0) (cl.restore kept) := by
  have hidle := hok.idle hno
  rw [hidle]
  have hrows : ∀ h, h ∈ kept.1.foldl addRow [] ↔ h ∈ kept.1 := fun h => by simp [mem_foldl_addRow]
  constructor
  case within =>
    cases hp : kept.2 with
    | none => exact Nat.zero_le _
    | some n => exact (hk n hp).1
  case position =>
    intro n hn
    have hp : kept.2 = some n := hn
    obtain ⟨-, hg⟩ := hk n hp
    rw [hp]
    refine ⟨le_rfl, fun h hh => (hrows h).mpr (hg.shown h hh), fun h hh =>
      hg.gone h ((hrows h).mp hh)⟩
  case phase => exact fun page phase hp => absurd hp (by simp [Client.restore, Client.fresh])
  case ring => exact .inr fun r hr => absurd hr (by simp [Client.restore, Client.fresh])
  case lists => exact fun n phase hl => absurd hl (by simp [Client.restore, Client.fresh])
  case rings => exact fun r hr => absurd hr (by simp [Client.restore, Client.fresh])
  case deletes => exact hok.deletes
  case saves => exact fun kept hk => absurd hk (by simp [Client.restore, Client.fresh])
  case idle => exact fun hres => absurd hres (by simp [Client.restore])

namespace Client

variable {cl : Client}

theorem Ok.setSaves (hok : cl.Ok a log F) (hres : cl.restored = true)
    {saves : List (List Hash × Option ℕ)} (w : ℕ) (hs : ∀ kept ∈ saves, Consistent a log kept) :
    Ok a log F { cl with saves := saves, written := w } where
  within := hok.within
  position := hok.position
  phase := hok.phase
  ring := hok.ring
  lists := hok.lists
  rings := hok.rings
  deletes := hok.deletes
  saves := hs
  idle hno := absurd hres (by simpa using hno)

theorem Ok.setWriter (hok : cl.Ok a log F) (hres : cl.restored = true) : Ok a log F
    { cl with writer := true } where
  within := hok.within
  position := hok.position
  phase := hok.phase
  ring := hok.ring
  lists := hok.lists
  rings := hok.rings
  deletes := hok.deletes
  saves := hok.saves
  idle hno := absurd hres (by simpa using hno)

theorem Ok.setRings (hok : cl.Ok a log F) (hres : cl.restored = true) {rings : List (Option Ring)}
    (hr : ∀ r, some r ∈ rings → Covers a log F r) : Ok a log F { cl with rings := rings } where
  within := hok.within
  position := hok.position
  phase := hok.phase
  ring := hok.ring
  lists := hok.lists
  rings := hr
  deletes := hok.deletes
  saves := hok.saves
  idle hno := absurd hres (by simpa using hno)

theorem Ok.restored_of_ring (hok : cl.Ok a log F) {r : Option Ring} (hr : cl.rings[n]? = some r) :
    cl.restored = true := by
  apply hok.restored_of Client.rings fun _ => rfl
  intro he
  rw [he] at hr
  exact absurd hr (by simp [Client.fresh])

theorem Ok.covers_of_none (hok : cl.Ok a log F) (hp : cl.pass = none) : ∀ r, cl.ring = some r →
    Covers a log F r := by
  refine hok.ring.resolve_left ?_
  rintro ⟨page, n, head, ring, hp', -⟩
  exact absurd (hp.symm.trans hp') (by simp)

theorem Ok.fetchFull (hok : cl.Ok a log F) (h : Hash) : Ok a log F (cl.fetchFull h) := by
  unfold Client.fetchFull
  split
  · next hh =>
    apply (hok.reshape hh.1 Reshapes.refl (cl.raw ++ [h])).setRings hh.1
    intro r hr
    split at hr
    · rcases List.mem_append.mp hr with hold | hnew
      · exact hok.rings r hold
      · exact absurd hnew (by simp)
    · exact hok.rings r hr
  · exact hok

theorem Ok.setDelete (hok : cl.Ok a log F) {d : Hash × DeletePhase}
    (hd : d.2 = .gone → .deleted d.1 ∈ log) (n : ℕ) :
    Ok a log F (cl.setDelete n d) := by
  apply hok.setDeletes
  intro h hh
  rcases List.mem_or_eq_of_mem_set hh with hold | rfl
  · exact hok.deletes h hold
  · exact hd rfl

theorem Ok.finishDelete (hok : cl.Ok a log F) (hd : .deleted h ∈ log) (n : ℕ) : Ok a log F
    (cl.finishDelete a n h) := by
  have hrows : Ok a log F { cl with rows := cl.rows.filter (· ≠ h) } := by
    by_cases hres : cl.restored = true
    · exact hok.reshape hres (Reshapes.drop hd) cl.raw
    · have hidle := hok.idle (by simpa using hres)
      have hsame : { cl with rows := cl.rows.filter (· ≠ h) } = cl := by
        rw [hidle]
        rfl
      rw [hsame]
      exact hok
  exact (hrows.setDelete (by simp) n).emit.persist

end Client

theorem itemsOk_page {B : ℕ} : ItemsOk log B n (((log.drop n).take m).map (itemOf log)) := by
  induction m generalizing n with
  | zero => trivial
  | succ m ih =>
    cases hd : log.drop n with
    | nil => trivial
    | cons c rest =>
      have hc : log[n]? = some c := by
        rw [← List.head?_drop, hd]
        rfl
      have hrest : rest = log.drop (n + 1) := by
        rw [← List.tail_drop, hd]
        rfl
      refine ⟨hc, ?_, hrest ▸ ih⟩
      intro h hh
      obtain rfl : c = .stored h := hh
      have hstored : .stored h ∈ log := List.mem_of_getElem? hc
      simp only [itemOf]
      by_cases hdel : .deleted h ∈ log
      · simp [held, hdel]
      · have hbelow : .deleted h ∉ log.take B := fun hb => hdel (List.mem_of_mem_take hb)
        simpa [held, hdel, hstored] using hbelow

theorem phaseOk_answerAt {ring : Option Ring} {lists : List ListPhase} {pos : Option ℕ}
    (hF : F ≤ log.length) (hp : PhaseOk a log F rows ring lists (.asked pos)) (resync : Bool)
    (n : ℕ) :
    PhaseOk a log F rows ring lists (.answered (answerAt log pos resync n)) := by
  unfold answerAt
  split
  · next p =>
    obtain ⟨hle, hg⟩ := hp p rfl
    refine ⟨p, hle, hg, itemsOk_page, by simp, ?_⟩
    have hlen : ((log.drop p).take n).length ≤ log.length - p := by
      rw [List.length_take, List.length_drop]
      exact min_le_right ..
    omega
  · exact le_rfl

theorem ListingOk.page {l : Listing} {entries : List Hash} {last : Bool}
    (hl : ListingOk a log F rows l none) (hpending : l.pending = [])
    (hfair : fairPage log l entries last = true) :
    ListingOk a log F rows { l with
      pending := entries, last := last, owed :=
  l.owed.filter fun h => !last && !entries.contains h } none := by
  rw [fairPage, Bool.and_eq_true, List.all_eq_true] at hfair
  obtain ⟨hheld, hlast⟩ := hfair
  constructor
  · intro h hh
    rcases hl.listed h hh with hs | hp | ho
    · exact .inl hs
    · exact absurd hp (by simp [hpending])
    · right
      by_cases hin : h ∈ entries
      · exact .inl hin
      · cases last with
        | false => exact .inr (List.mem_filter.mpr ⟨ho, by simpa using hin⟩)
        | true =>
          have hleft := List.all_eq_true.mp hlast h ho
          have hstored : .stored h ∈ log := List.mem_of_mem_take hh.stored
          exact absurd hleft (by simp [hin, held, hh.kept, hstored])
  · exact hl.drawn
  · exact hl.seen
  · intro h hp hdel
    have hh := hheld h hp
    simp only [held, decide_eq_true_eq] at hh
    exact hh.2 (List.mem_of_mem_take hdel)
  · intro h
    have hlast' : last = true := h
    simp [hlast']

theorem fits_of_ne (hne : ∀ k, c ≠ .aliases k) : Fits a log c := fun k hk => absurd hk (hne k)

theorem System.Ok.step (hs : s.Ok a) {e : Event} (hcalm : calm s e = true) : System.Ok a
    (step a s e) := by
  obtain ⟨F, hok⟩ := hs.client
  cases e with
  | arrives h =>
    rw [Feed.step]
    split
    · exact hs
    · exact hs.append (fits_of_ne (by simp))
  | deletedElsewhere h =>
    rw [Feed.step]
    split
    · exact hs.append (fits_of_ne (by simp))
    · exact hs
  | addAlias k =>
    rw [Feed.step]
    split
    · exact hs
    · next hno =>
      apply hs.append
      intro k' hk h hh hsealed
      cases hk
      exact hno (List.any_eq_true.mpr ⟨_, hh, by simpa using hsealed⟩)
  | otherChange => exact hs.append (fits_of_ne (by simp))
  | restore =>
    rw [Feed.step]
    split
    · exact hs
    · next hno => exact hs.setClient (hok.restore (by simpa using hno) hs.kept)
  | becomeWriter =>
    rw [Feed.step]
    split
    · next hres => exact hs.setClient ((hok.setWriter hres).save hres)
    · exact hs
  | save =>
    rw [Feed.step]
    split
    · exact hs
    · next kept saves hsaves =>
      have hres : s.client.restored = true :=
        hok.restored_of Client.saves (fun _ => rfl) (by simp [hsaves, Client.fresh])
      have hall : ∀ kept' ∈ kept :: saves, Consistent a s.log kept' := hsaves ▸ hok.saves
      refine ⟨hs.ordered,
        ⟨F, hok.setSaves hres _ fun kept' hk => hall kept' (List.mem_cons_of_mem _ hk)⟩, ?_⟩
      exact hall kept (List.mem_cons_self ..)
  | crash => exact hs.setClient (Client.ok_fresh hok.within (by simp))
  | pass =>
    rw [Feed.step]
    split
    · next hh => exact hs.setClient (hok.setPass hh.1 (hok.covers_of_none hh.2) hok.position)
    · exact hs
  | replay p =>
    rw [Feed.step]
    split
    · next hh =>
      obtain ⟨hres, hnone, hp⟩ := hh
      apply hs.setClient (hok.setPass hres (hok.covers_of_none hnone) ?_)
      intro p' hp'
      cases hp'
      obtain ⟨n, hn, hle⟩ := (Option.any_eq_true ..).mp hp
      obtain ⟨hle', hg⟩ := hok.position n hn
      exact ⟨(of_decide_eq_true hle).trans hle', hg.mono (of_decide_eq_true hle)⟩
    · exact hs
  | answer resync n =>
    rw [Feed.step]
    split
    · next page pos hp =>
      exact hs.setClient (hok.setPhase (hok.covers hp (by simp))
        (phaseOk_answerAt hok.within (hok.phase _ _ hp) resync n))
    · exact hs
  | answerFails =>
    rw [Feed.step]
    split
    · next page pos hp => exact hs.setClient (hok.endPass (hok.covers hp (by simp)))
    · exact hs
  | passIdentities ok =>
    rw [Feed.step]
    split
    · next page p h hp =>
      have hopening : OpeningOk a s.log F s.client.rows p h := hok.phase _ _ hp
      exact hs.setClient (hok.setPhase (hok.covers hp (by simp)) ⟨hopening, covers_keyring hcalm⟩)
    · exact hs
  | tickPass =>
    obtain ⟨F', hok'⟩ := hok.tickPass hs.ordered hcalm
    exact hs.setClient hok'
  | list =>
    rw [Feed.step]
    split
    · next hres => exact hs.setClient (hok.addList hres)
    · exact hs
  | listIdentities n ok =>
    rw [Feed.step]
    split
    · next hl =>
      have hcov : Covers a s.log F (keyringFor a s.log ok) := covers_keyring hcalm
      exact hs.setClient (hok.setList (hok.restored_of_list hl) hcov (by simp) (.inl ⟨_, rfl⟩))
    · exact hs
  | page n entries last =>
    rw [Feed.step]
    split
    · next l hl =>
      split
      · next hfair =>
        obtain ⟨hready, hlist, hpending⟩ := hok.lists n _ hl
        refine hs.setClient (hok.setList (hok.restored_of_list hl) ?_ (by simp) ?_)
        · exact ⟨hready, hlist.page hpending hfair⟩
        · obtain ⟨r, hr, hcov⟩ := hready
          exact .inr fun r' hr' => Option.some.inj (hr.symm.trans hr') ▸ hcov
      · exact hs
    · exact hs
  | listFails n =>
    rw [Feed.step]
    split
    · next l hl =>
      obtain ⟨⟨r, hr, hcov⟩, -⟩ := hok.lists n _ hl
      have hfailed : ListOk a s.log F s.client.rows s.client.ring .failed := trivial
      apply hs.setClient (hok.setList (hok.restored_of_list hl) hfailed (by simp) ?_)
      exact .inr fun r' hr' => Option.some.inj (hr.symm.trans hr') ▸ hcov
    · exact hs
  | tickList n => exact hs.setClient (hok.tickList hs.ordered n)
  | fetchFull h => exact hs.setClient (hok.fetchFull h)
  | correct =>
    rw [Feed.step]
    split
    · exact hs.setClient hok.emit.persist
    · exact hs
  | ringIdentities n ok =>
    rw [Feed.step]
    split
    · next hr =>
      apply hs.setClient (hok.setRings (hok.restored_of_ring hr) ?_)
      intro r hmem
      rcases List.mem_or_eq_of_mem_set hmem with hold | hnew
      · exact hok.rings r hold
      · cases hnew
        exact covers_keyring hcalm
    · exact hs
  | tickRing n =>
    rw [Feed.step]
    split
    · next r hr =>
      have hres := hok.restored_of_ring hr
      have hcov : Covers a s.log F r := hok.rings r (List.mem_of_getElem? hr)
      apply hs.setClient ((hok.setRing hres hcov).setRings hres ?_)
      exact fun r' hr' => hok.rings r' (List.mem_of_mem_eraseIdx hr')
    · exact hs
  | delete h =>
    apply hs.setClient (hok.setDeletes ?_)
    intro h' hh
    rcases List.mem_append.mp hh with hold | hnew
    · exact hok.deletes h' hold
    · exact absurd hnew (by simp)
  | relayDelete n =>
    rw [Feed.step]
    split
    · next h hd =>
      split
      · next hstored =>
        split
        · have hs' := hs.append (c := .deleted h) (fits_of_ne (by simp))
          obtain ⟨F', hok'⟩ := hs'.client
          exact hs'.setClient (hok'.setDelete (by simp) n)
        · next hno =>
          have hdel : .deleted h ∈ s.log := by
            by_contra hnot
            exact hno (by simp [held, hstored, hnot])
          exact hs.setClient (hok.setDelete (fun _ => hdel) n)
      · exact hs
    · exact hs
  | tickDelete n =>
    rw [Feed.step]
    split
    · next h hd => exact hs.setClient (hok.finishDelete (hok.deletes h (List.mem_of_getElem? hd)) n)
    · exact hs

theorem System.Ok.upToDate (hs : s.Ok a) : UpToDate a s := by
  obtain ⟨F, hok⟩ := hs.client
  exact ⟨fun n hn => (hok.position n hn).2, fun n hn => (hs.kept n hn).2⟩

end Step

/-- In a run whose steps are calm, the rows are up to date with the position that they are said to
be at, in memory and as they are kept on the device: through crashes, replays of events, listings
and deletions in any order. -/
theorem feed_keeps_up (a : Account) (events : List Event)
    (hcalm : Along (step a) (fun s e => calm s e) System.initial events) :
    Throughout (step a) (UpToDate a) System.initial events := by
  have hok : Throughout (step a) (System.Ok a) System.initial events :=
    throughout_of_along System.ok_initial (fun _ _ hs hc => hs.step hc) hcalm
  exact hok.imp fun _ hs => hs.upToDate

structure Mirrors (a : Account) (log : List Change) (rows : List Hash) (n : ℕ) : Prop where
  shown : ∀ h, .stored h ∈ log.take n → .deleted h ∉ log.take n → a.sealedTo h ∈ keysAt a log →
    a.late h = false → h ∈ rows
  gone : ∀ h ∈ rows, .deleted h ∉ log.take n

def MirrorsFeed (a : Account) (s : System) : Prop :=
  (∀ n, s.client.position = some n → Mirrors a s.log s.client.rows n) ∧ ∀ n, s.kept.2 = some n →
    Mirrors a s.log s.kept.1 n

namespace Newsletter

def account : Account := ⟨["own"], fun h => if h = "news" then "alias" else "own", fun _ => false⟩

def listed : List Event :=
  [.restore, .arrives "mail", .pass, .answer false 10, .tickPass, .listIdentities 0 true,
    .tickList 0, .page 0 ["mail"] true, .tickList 0, .tickList 0, .tickList 0, .tickPass, .tickPass,
      .tickPass]

def told (ok : Bool) : List Event :=
  [.addAlias "alias", .arrives "news", .pass, .answer false 10, .tickPass, .tickPass,
    .passIdentities ok, .tickPass, .tickPass, .tickPass, .tickPass, .tickPass]

def keeps : List Event := [.save, .tickPass, .tickPass, .save, .tickPass]

def again : List Event := [.crash, .restore, .replay 0, .answer false 10, .tickPass, .tickPass,
    .tickPass, .tickPass, .tickPass]

def deleted : List Event := [.delete "mail", .relayDelete 0, .tickDelete 0]

theorem kept_up :
    Throughout (step account) (UpToDate account) System.initial
      (listed ++ [.becomeWriter, .save] ++ told true ++ keeps ++ deleted ++ again) :=
  feed_keeps_up account _ (by decide)

/-- A message that is deleted here is gone from the rows before the feed has told of it. -/
theorem row_goes_before_its_event : ¬ ∀ a events, Throughout (step a)
    (MirrorsFeed a) System.initial events := by
  intro h
  have hlast := (h account (listed ++ deleted)).last
  have hposition : (run (step account) System.initial (listed ++ deleted)).client.position =
      some 1 := by decide
  have hmirrors := hlast.1 1 hposition
  have hrow := hmirrors.shown "mail" (by decide) (by decide) (by decide) rfl
  exact absurd hrow (by decide)

-- Without an answer of identities the newsletter stays out, and the position goes past it.
example :
    (run (step account) System.initial (listed ++ told false)).client.position = some 3 ∧
      (run (step account) System.initial (listed ++ told false)).client.rows = ["mail"] := by
  decide

-- A listing that was asked before the message came in prunes it after the pass has moved on.
example :
    let events : List Event := listed ++
      [.list, .listIdentities 1 true, .tickList 1, .page 1 ["mail"] true, .arrives "late"] ++
      [.pass, .answer false 10, .tickPass, .tickPass, .tickPass, .tickPass, .tickPass, .tickPass,
        .tickPass, .tickPass, .tickList 1]
    (run (step account) System.initial events).client.position = some 2 ∧
      (run (step account) System.initial events).client.rows = ["mail"] := by
  decide

end Newsletter

end Dmcn.Web.Feed
