import OpenDmcn.Web.MailFeed

/-! What holds of the mail list at every await. The invariant has a bound, a position of the log
below which every listing and every ring that is under way has taken notice of everything; the rows
are up to date with some position below it. -/

namespace Dmcn.Web.Feed

variable {a : Account} {log : List Change} {c : Change} {n m F : ℕ} {rows rows' : List Hash}
  {h : Hash}

/-- A message that the rows have to show at a position: stored by then, not deleted since, for a key
of the account, and not for an address that had been retired. -/
structure Live (a : Account) (log : List Change) (n : ℕ) (h : Hash) : Prop where
  stored : .stored h ∈ log.take n
  kept : .deleted h ∉ log
  ours : a.sealedTo h ∈ keysAt a log
  timely : a.late h = false

structure Good (a : Account) (log : List Change) (rows : List Hash) (n : ℕ) : Prop where
  shown : ∀ h, Live a log n h → h ∈ rows
  gone : ∀ h ∈ rows, .deleted h ∉ log.take n

def UpToDate (a : Account) (s : System) : Prop :=
  (∀ n, s.client.position = some n → Good a s.log s.client.rows n) ∧ ∀ n, s.kept.2 = some n →
    Good a s.log s.kept.1 n

section Log

theorem mem_keysAt {k : Key} : k ∈ keysAt a log ↔ k ∈ a.own ∨ .aliases k ∈ log := by
  simp only [keysAt, List.mem_append, List.mem_filterMap]
  refine or_congr_right ⟨?_, fun hk => ⟨_, hk, rfl⟩⟩
  rintro ⟨e, he, hk⟩
  cases e with
  | aliases k' => exact Option.some.inj hk ▸ he
  | stored h => exact absurd hk (by simp)
  | deleted h => exact absurd hk (by simp)
  | other => exact absurd hk (by simp)

theorem mem_take_mono (hnm : n ≤ m) (hc : c ∈ log.take n) : c ∈ log.take m :=
  List.take_subset_take_left log hnm hc

theorem take_append (hn : n ≤ log.length) : (log ++ [c]).take n = log.take n :=
  List.take_append_of_le_length hn

theorem mem_take_succ {e : Change} (hc : log[n]? = some c) : e ∈ log.take (n + 1) ↔ e ∈ log.take n ∨
    e = c := by
  rw [List.take_add_one, hc]
  simp

theorem keysAt_take_subset {k : Key} (hk : k ∈ keysAt a (log.take n)) : k ∈ keysAt a log :=
  mem_keysAt.mpr ((mem_keysAt.mp hk).imp_right List.mem_of_mem_take)

def Ordered (a : Account) (log : List Change) : Prop :=
  ∀ n h, .stored h ∈ log.take n → a.sealedTo h ∈ keysAt a log → a.sealedTo h ∈ keysAt a (log.take n)

def Fits (a : Account) (log : List Change) (c : Change) : Prop :=
  ∀ k, c = .aliases k → ∀ h, .stored h ∈ log → a.sealedTo h ≠ k

theorem Fits.ours (hfit : Fits a log c) (hh : .stored h ∈ log)
    (hk : a.sealedTo h ∈ keysAt a (log ++ [c])) :
    a.sealedTo h ∈ keysAt a log := by
  rw [mem_keysAt, List.mem_append, List.mem_singleton] at hk
  rcases hk with hown | hlog | hc
  · exact mem_keysAt.mpr (.inl hown)
  · exact mem_keysAt.mpr (.inr hlog)
  · exact absurd rfl (hfit _ hc.symm h hh)

theorem Ordered.append (ho : Ordered a log) (hfit : Fits a log c) : Ordered a (log ++ [c]) := by
  intro n h hh hk
  by_cases hn : n ≤ log.length
  · rw [take_append hn] at hh ⊢
    exact ho n h hh (hfit.ours (List.mem_of_mem_take hh) hk)
  · have hall : (log ++ [c]).take n = log ++ [c] := List.take_of_length_le (by simp; omega)
    rwa [hall]

theorem Live.mono (hl : Live a log n h) (hnm : n ≤ m) : Live a log m h :=
  ⟨mem_take_mono hnm hl.stored, hl.kept, hl.ours, hl.timely⟩

theorem Live.of_append (hfit : Fits a log c) (hn : n ≤ log.length) (hl : Live a (log ++ [c]) n h) :
    Live a log n h := by
  have hstored := hl.stored
  rw [take_append hn] at hstored
  refine ⟨hstored, fun hdel => hl.kept (List.mem_append_left _ hdel), ?_, hl.timely⟩
  exact hfit.ours (List.mem_of_mem_take hstored) hl.ours

end Log

section Rows

theorem Good.mono (hg : Good a log rows m) (hnm : n ≤ m) : Good a log rows n :=
  ⟨fun h hl => hg.shown h (hl.mono hnm), fun h hh hdel => hg.gone h hh (mem_take_mono hnm hdel)⟩

theorem Good.append (hfit : Fits a log c) (hn : n ≤ log.length) (hg : Good a log rows n) :
    Good a (log ++ [c]) rows n := by
  refine ⟨fun h hl => hg.shown h (hl.of_append hfit hn), fun h hh => ?_⟩
  rw [take_append hn]
  exact hg.gone h hh

theorem Good.succ (hg : Good a log rows n) (hc : log[n]? = some c)
    (hstored : ∀ h, c = .stored h → Live a log (n + 1) h → h ∈ rows)
    (hdeleted : ∀ h, c = .deleted h → h ∉ rows) :
    Good a log rows (n + 1) := by
  constructor
  · intro h hl
    rcases (mem_take_succ hc).mp hl.stored with hbefore | hnow
    · exact hg.shown h ⟨hbefore, hl.kept, hl.ours, hl.timely⟩
    · exact hstored h hnow.symm hl
  · intro h hh hdel
    rcases (mem_take_succ hc).mp hdel with hbefore | hnow
    · exact hg.gone h hh hbefore
    · exact hdeleted h hnow.symm hh

/-- A change of the rows that leaves those that have to be shown below the bound, and brings back
none deleted below it. -/
structure Reshapes (a : Account) (log : List Change) (F : ℕ) (rows rows' : List Hash) : Prop where
  leaves : ∀ h ∈ rows, Live a log F h → h ∈ rows'
  brings : ∀ h ∈ rows', h ∈ rows ∨ .deleted h ∉ log.take F

theorem Good.reshape (hg : Good a log rows n) (hn : n ≤ F) (hr : Reshapes a log F rows rows') :
    Good a log rows' n := by
  constructor
  · intro h hl
    exact hr.leaves h (hg.shown h hl) (hl.mono hn)
  · intro h hh hdel
    rcases hr.brings h hh with hold | hnot
    · exact hg.gone h hold hdel
    · exact hnot (mem_take_mono hn hdel)

theorem Reshapes.refl : Reshapes a log F rows rows := ⟨fun _ hh _ => hh, fun _ hh => .inl hh⟩

theorem Reshapes.filter {p : Hash → Bool} (hp : ∀ h ∈ rows, Live a log F h → p h) :
    Reshapes a log F rows (rows.filter p) :=
  ⟨fun h hh hl => List.mem_filter.mpr ⟨hh, hp h hh hl⟩, fun _ hh => .inl (List.mem_filter.mp hh).1⟩

theorem Reshapes.drop (hdel : .deleted h ∈ log) : Reshapes a log F rows (rows.filter (· ≠ h)) := by
  apply Reshapes.filter
  intro h' _ hl
  simp only [ne_eq, decide_not, Bool.not_eq_true', decide_eq_false_iff_not]
  rintro rfl
  exact hl.kept hdel

theorem mem_addRow {h' : Hash} : h' ∈ addRow rows h ↔ h' ∈ rows ∨ h' = h := by
  unfold addRow
  split
  · next hh => exact ⟨.inl, fun hor => hor.elim id fun he => he ▸ hh⟩
  · simp

theorem Reshapes.add (hnot : .deleted h ∉ log.take F) : Reshapes a log F rows (addRow rows h) := by
  refine ⟨fun h' hh _ => mem_addRow.mpr (.inl hh), fun h' hh => ?_⟩
  rcases mem_addRow.mp hh with hold | rfl
  · exact .inl hold
  · exact .inr hnot

end Rows

section Invariant

def Covers (a : Account) (log : List Change) (F : ℕ) (ring : Ring) : Prop :=
  ∀ k ∈ keysAt a (log.take F), k ∈ ring.keys

def Ready (a : Account) (log : List Change) (F : ℕ) (ring : Option Ring) : Prop :=
  ∃ r, ring = some r ∧ Covers a log F r

def ItemOk (log : List Change) (F : ℕ) (i : Item) : Prop :=
  ∀ h, i.change = .stored h → if i.entry then .deleted h ∉ log.take F else .deleted h ∈ log

def ItemsOk (log : List Change) (F : ℕ) : ℕ → List Item → Prop
  | _, [] => True
  | n, i :: items => log[n]? = some i.change ∧ ItemOk log F i ∧ ItemsOk log F (n + 1) items

structure ListingOk (a : Account) (log : List Change) (F : ℕ) (rows : List Hash) (l : Listing)
    (opening : Option Hash) : Prop where
  listed : ∀ h, Live a log F h → h ∈ l.seen ∨ h ∈ l.pending ∨ h ∈ l.owed
  drawn : ∀ h ∈ l.seen, Live a log F h → h ∈ rows ∨ opening = some h
  seen : ∀ h ∈ l.seen, .deleted h ∉ log.take F
  pending : ∀ h ∈ l.pending, .deleted h ∉ log.take F
  last : l.last → l.owed = []

def ListOk (a : Account) (log : List Change) (F : ℕ) (rows : List Hash) (ring : Option Ring) :
    ListPhase → Prop
  | .keyring none | .done | .failed => True
  | .keyring (some r) => Covers a log F r
  | .fetching l => Ready a log F ring ∧ ListingOk a log F rows l none ∧ l.pending = []
  | .entering l => Ready a log F ring ∧ ListingOk a log F rows l none
  | .decoding l h | .decrypting l h => Ready a log F ring ∧ ListingOk a log F rows l (some h) ∧
    h ∈ l.seen

structure OpeningOk (a : Account) (log : List Change) (F : ℕ) (rows : List Hash) (p : Applying)
    (h : Hash) : Prop where
  good : Good a log rows p.cur
  change : log[p.cur]? = some (.stored h)
  kept : .deleted h ∉ log.take F
  items : ItemsOk log F (p.cur + 1) p.items
  target : p.cur + 1 + p.items.length = p.target
  within : p.target ≤ F

def PhaseOk (a : Account) (log : List Change) (F : ℕ) (rows : List Hash) (ring : Option Ring)
    (lists : List ListPhase) :
    Phase → Prop
  | .asked pos => ∀ p, pos = some p → p ≤ F ∧ Good a log rows p
  | .answered (.resync head) => head ≤ log.length
  | .answered (.events target items _) =>
    ∃ p, p ≤ F ∧ Good a log rows p ∧ ItemsOk log (max F target) p items ∧
      p + items.length = target ∧ target ≤ log.length
  | .applying p => Good a log rows p.cur ∧ ItemsOk log F p.cur p.items ∧ p.cur + p.items.length =
    p.target ∧ p.target ≤ F
  | .ensuring p h none => OpeningOk a log F rows p h ∧ ring ≠ none
  | .ensuring p h (some none) => OpeningOk a log F rows p h
  | .ensuring p h (some (some r)) => OpeningOk a log F rows p h ∧ Covers a log F r
  | .decoding p h => OpeningOk a log F rows p h ∧ ring ≠ none
  | .decrypting p h => OpeningOk a log F rows p h
  | .listing n head => head ≤ F ∧ (lists[n]? = some .done → Good a log rows head)
  | .applied target _ _ | .moving target _ | .moved target _ _ => target ≤ F ∧
    Good a log rows target

def Client.Awaits (c : Client) : Prop :=
  ∃ page n head ring, c.pass = some ⟨page, .listing n head⟩ ∧ c.lists[n]? = some (.keyring ring)

def Consistent (a : Account) (log : List Change) (kept : List Hash × Option ℕ) : Prop :=
  ∀ n, kept.2 = some n → n ≤ log.length ∧ Good a log kept.1 n

structure Client.Ok (a : Account) (log : List Change) (F : ℕ) (c : Client) : Prop where
  within : F ≤ log.length
  position : ∀ n, c.position = some n → n ≤ F ∧ Good a log c.rows n
  phase : ∀ page phase, c.pass = some ⟨page, phase⟩ → PhaseOk a log F c.rows c.ring c.lists phase
  ring : c.Awaits ∨ ∀ r, c.ring = some r → Covers a log F r
  lists : ∀ (n : ℕ) (phase : ListPhase), c.lists[n]? = some phase →
    ListOk a log F c.rows c.ring phase
  rings : ∀ r, some r ∈ c.rings → Covers a log F r
  deletes : ∀ h, (h, .gone) ∈ c.deletes → .deleted h ∈ log
  saves : ∀ kept ∈ c.saves, Consistent a log kept
  idle : c.restored = false → c = { Client.fresh with deletes := c.deletes }

end Invariant

section Append

variable {ring : Option Ring} {lists : List ListPhase} {i : Item} {items : List Item}

theorem covers_append (hF : F ≤ log.length) {r : Ring} : Covers a (log ++ [c]) F r ↔
    Covers a log F r := by
  rw [Covers, Covers, take_append hF]

theorem ready_append (hF : F ≤ log.length) : Ready a (log ++ [c]) F ring ↔ Ready a log F ring := by
  simp only [Ready, covers_append hF]

theorem ItemOk.append (hF : F ≤ log.length) (hi : ItemOk log F i) : ItemOk (log ++ [c]) F i := by
  intro h hh
  have hold := hi h hh
  rw [take_append hF]
  split
  · next he => simpa [he] using hold
  · next he => exact List.mem_append_left _ (by simpa [he] using hold)

theorem getElem?_append (hc : ∃ d, log[n]? = some d) : (log ++ [c])[n]? = log[n]? := by
  obtain ⟨d, hd⟩ := hc
  exact List.getElem?_append_left (List.getElem?_eq_some_iff.mp hd).1

theorem ItemsOk.append (hF : F ≤ log.length) (hi : ItemsOk log F n items) :
    ItemsOk (log ++ [c]) F n items := by
  induction items generalizing n with
  | nil => trivial
  | cons i items ih =>
    obtain ⟨hc, hitem, hrest⟩ := hi
    exact ⟨(getElem?_append ⟨_, hc⟩).trans hc, hitem.append hF, ih hrest⟩

theorem ListingOk.append {l : Listing} {o : Option Hash} (hfit : Fits a log c) (hF : F ≤ log.length)
    (hl : ListingOk a log F rows l o) : ListingOk a (log ++ [c]) F rows l o := by
  refine ⟨fun h hh => hl.listed h (hh.of_append hfit hF), fun h hs hh =>
    hl.drawn h hs (hh.of_append hfit hF), ?_, ?_, hl.last⟩
  · rw [take_append hF]
    exact hl.seen
  · rw [take_append hF]
    exact hl.pending

theorem ListOk.append {phase : ListPhase} (hfit : Fits a log c) (hF : F ≤ log.length)
    (hl : ListOk a log F rows ring phase) :
    ListOk a (log ++ [c]) F rows ring phase := by
  cases phase with
  | keyring r =>
    cases r with
    | none => trivial
    | some r => exact (covers_append hF).mpr hl
  | done => trivial
  | failed => trivial
  | fetching l => exact ⟨(ready_append hF).mpr hl.1, hl.2.1.append hfit hF, hl.2.2⟩
  | entering l => exact ⟨(ready_append hF).mpr hl.1, hl.2.append hfit hF⟩
  | decoding l h => exact ⟨(ready_append hF).mpr hl.1, hl.2.1.append hfit hF, hl.2.2⟩
  | decrypting l h => exact ⟨(ready_append hF).mpr hl.1, hl.2.1.append hfit hF, hl.2.2⟩

theorem OpeningOk.append {p : Applying} (hfit : Fits a log c) (hF : F ≤ log.length)
    (ho : OpeningOk a log F rows p h) :
    OpeningOk a (log ++ [c]) F rows p h := by
  have hcur : p.cur ≤ log.length := (List.getElem?_eq_some_iff.mp ho.change).1.le
  refine ⟨ho.good.append hfit hcur, (getElem?_append ⟨_, ho.change⟩).trans ho.change, ?_,
    ho.items.append hF, ho.target, ho.within⟩
  rw [take_append hF]
  exact ho.kept

theorem PhaseOk.append {phase : Phase} (hfit : Fits a log c) (hF : F ≤ log.length)
    (hp : PhaseOk a log F rows ring lists phase) :
    PhaseOk a (log ++ [c]) F rows ring lists phase := by
  have hgood : ∀ {n}, n ≤ F → Good a log rows n → Good a (log ++ [c]) rows n :=
    fun hn hg => hg.append hfit (hn.trans hF)
  cases phase with
  | asked pos =>
    intro p hpos
    obtain ⟨hle, hg⟩ := hp p hpos
    exact ⟨hle, hgood hle hg⟩
  | answered answer =>
    cases answer with
    | resync head => exact hp.trans (by simp)
    | events target items more =>
      obtain ⟨p, hle, hg, hitems, hlen, htarget⟩ := hp
      refine ⟨p, hle, hgood hle hg, hitems.append (max_le hF htarget), hlen,
        htarget.trans (by simp)⟩
  | applying p =>
    obtain ⟨hg, hitems, hlen, htarget⟩ := hp
    exact ⟨hgood (by omega) hg, hitems.append hF, hlen, htarget⟩
  | ensuring p h building =>
    cases building with
    | none => exact ⟨hp.1.append hfit hF, hp.2⟩
    | some r =>
      cases r with
      | none => exact OpeningOk.append hfit hF hp
      | some r => exact ⟨hp.1.append hfit hF, (covers_append hF).mpr hp.2⟩
  | decoding p h => exact ⟨hp.1.append hfit hF, hp.2⟩
  | decrypting p h => exact OpeningOk.append hfit hF hp
  | listing n head => exact ⟨hp.1, fun hd => hgood hp.1 (hp.2 hd)⟩
  | applied target more ticket => exact ⟨hp.1, hgood hp.1 hp.2⟩
  | moving target more => exact ⟨hp.1, hgood hp.1 hp.2⟩
  | moved target more ticket => exact ⟨hp.1, hgood hp.1 hp.2⟩

theorem Consistent.append {kept : List Hash × Option ℕ} (hfit : Fits a log c)
    (hk : Consistent a log kept) :
    Consistent a (log ++ [c]) kept := by
  intro n hn
  obtain ⟨hle, hg⟩ := hk n hn
  exact ⟨hle.trans (by simp), hg.append hfit hle⟩

theorem Client.Ok.append {cl : Client} (hfit : Fits a log c) (hok : cl.Ok a log F) :
    cl.Ok a (log ++ [c]) F where
  within := hok.within.trans (by simp)
  position n hn := by
    obtain ⟨hle, hg⟩ := hok.position n hn
    exact ⟨hle, hg.append hfit (hle.trans hok.within)⟩
  phase page phase hp := (hok.phase page phase hp).append hfit hok.within
  ring := hok.ring.imp_right fun hr r hring => (covers_append hok.within).mpr (hr r hring)
  lists n phase hl := (hok.lists n phase hl).append hfit hok.within
  rings r hr := (covers_append hok.within).mpr (hok.rings r hr)
  deletes h hd := List.mem_append_left _ (hok.deletes h hd)
  saves kept hk := (hok.saves kept hk).append hfit
  idle := hok.idle

end Append

section Reshape

variable {ring : Option Ring} {lists : List ListPhase}

theorem ListingOk.reshape {l : Listing} {o : Option Hash} (hl : ListingOk a log F rows l o)
    (hr : Reshapes a log F rows rows') : ListingOk a log F rows' l o :=
  ⟨hl.listed, fun h hs hh => (hl.drawn h hs hh).imp_left fun hrow => hr.leaves h hrow hh, hl.seen,
    hl.pending, hl.last⟩

theorem ListOk.reshape {phase : ListPhase} (hl : ListOk a log F rows ring phase)
    (hr : Reshapes a log F rows rows') :
    ListOk a log F rows' ring phase := by
  cases phase with
  | keyring r =>
    cases r with
    | none => trivial
    | some r => exact hl
  | done => trivial
  | failed => trivial
  | fetching l => exact ⟨hl.1, hl.2.1.reshape hr, hl.2.2⟩
  | entering l => exact ⟨hl.1, hl.2.reshape hr⟩
  | decoding l h => exact ⟨hl.1, hl.2.1.reshape hr, hl.2.2⟩
  | decrypting l h => exact ⟨hl.1, hl.2.1.reshape hr, hl.2.2⟩

theorem OpeningOk.reshape {p : Applying} (ho : OpeningOk a log F rows p h)
    (hr : Reshapes a log F rows rows') :
    OpeningOk a log F rows' p h := by
  have hcur : p.cur ≤ F := by
    have hwithin := ho.within
    have htarget := ho.target
    omega
  exact ⟨ho.good.reshape hcur hr, ho.change, ho.kept, ho.items, ho.target, ho.within⟩

theorem PhaseOk.reshape {phase : Phase} (hp : PhaseOk a log F rows ring lists phase)
    (hr : Reshapes a log F rows rows') :
    PhaseOk a log F rows' ring lists phase := by
  cases phase with
  | asked pos =>
    intro p hpos
    obtain ⟨hle, hg⟩ := hp p hpos
    exact ⟨hle, hg.reshape hle hr⟩
  | answered answer =>
    cases answer with
    | resync head => exact hp
    | events target items more =>
      obtain ⟨p, hle, hg, hrest⟩ := hp
      exact ⟨p, hle, hg.reshape hle hr, hrest⟩
  | applying p =>
    obtain ⟨hg, hitems, hlen, htarget⟩ := hp
    exact ⟨hg.reshape (by omega) hr, hitems, hlen, htarget⟩
  | ensuring p h building =>
    cases building with
    | none => exact ⟨hp.1.reshape hr, hp.2⟩
    | some r =>
      cases r with
      | none => exact OpeningOk.reshape hp hr
      | some r => exact ⟨hp.1.reshape hr, hp.2⟩
  | decoding p h => exact ⟨hp.1.reshape hr, hp.2⟩
  | decrypting p h => exact OpeningOk.reshape hp hr
  | listing n head => exact ⟨hp.1, fun hd => (hp.2 hd).reshape hp.1 hr⟩
  | applied target more ticket => exact ⟨hp.1, hp.2.reshape hp.1 hr⟩
  | moving target more => exact ⟨hp.1, hp.2.reshape hp.1 hr⟩
  | moved target more ticket => exact ⟨hp.1, hp.2.reshape hp.1 hr⟩

theorem PhaseOk.setLists {lists' : List ListPhase} {phase : Phase}
    (hp : PhaseOk a log F rows ring lists phase)
    (hlists : ∀ n : ℕ, lists'[n]? = some .done → lists[n]? = some .done ∨ Good a log rows F) :
    PhaseOk a log F rows ring lists' phase := by
  cases phase with
  | listing n head =>
    refine ⟨hp.1, fun hd => ?_⟩
    rcases hlists n hd with hold | hgood
    · exact hp.2 hold
    · exact hgood.mono hp.1
  | answered answer => cases answer <;> exact hp
  | ensuring p h building =>
    cases building with
    | none => exact hp
    | some r => cases r <;> exact hp
  | _ => exact hp

end Reshape

namespace Client

variable {cl : Client}

theorem Ok.restored_of (hok : cl.Ok a log F) {β : Type} (f : Client → β)
    (hf : ∀ deletes, f { Client.fresh with deletes := deletes } = f Client.fresh)
    (hne : f cl ≠ f Client.fresh) :
    cl.restored = true := by
  by_contra hno
  have hidle := hok.idle (by simpa using hno)
  apply hne
  rw [hidle]
  exact hf _

theorem Ok.restored_of_pass (hok : cl.Ok a log F) {p : Pass} (hp : cl.pass = some p) :
    cl.restored = true :=
  hok.restored_of Client.pass (fun _ => rfl) (by simp [hp, Client.fresh])

theorem Ok.restored_of_list (hok : cl.Ok a log F) {phase : ListPhase}
    (hl : cl.lists[n]? = some phase) : cl.restored = true := by
  apply hok.restored_of Client.lists fun _ => rfl
  intro he
  rw [he] at hl
  exact absurd hl (by simp [Client.fresh])

theorem Ok.reshape (hok : cl.Ok a log F) (hres : cl.restored = true)
    (hr : Reshapes a log F cl.rows rows') (raw : List Hash) :
    Ok a log F { cl with rows := rows', raw := raw } where
  within := hok.within
  position n hn := by
    obtain ⟨hle, hg⟩ := hok.position n hn
    exact ⟨hle, hg.reshape hle hr⟩
  phase page phase hp := (hok.phase page phase hp).reshape hr
  ring := hok.ring
  lists n phase hl := (hok.lists n phase hl).reshape hr
  rings := hok.rings
  deletes := hok.deletes
  saves := hok.saves
  idle hno := absurd hres (by simpa using hno)

theorem Ok.setDeletes (hok : cl.Ok a log F) {deletes : List (Hash × DeletePhase)}
    (hd : ∀ h, (h, .gone) ∈ deletes → .deleted h ∈ log) :
    Ok a log F { cl with deletes := deletes } where
  within := hok.within
  position := hok.position
  phase := hok.phase
  ring := hok.ring
  lists := hok.lists
  rings := hok.rings
  deletes := hd
  saves := hok.saves
  idle hno := by
    have hidle := hok.idle hno
    rw [hidle]

theorem Ok.save (hok : cl.Ok a log F) (hres : cl.restored = true) : Ok a log F cl.save where
  within := hok.within
  position := hok.position
  phase := hok.phase
  ring := hok.ring
  lists := hok.lists
  rings := hok.rings
  deletes := hok.deletes
  saves kept hk := by
    rcases List.mem_append.mp hk with hold | hnew
    · exact hok.saves kept hold
    · rw [List.mem_singleton] at hnew
      subst hnew
      intro n hn
      obtain ⟨hle, hg⟩ := hok.position n hn
      exact ⟨hle.trans hok.within, hg⟩
  idle hno := absurd hres (by simpa [Client.save] using hno)

theorem Ok.persist (hok : cl.Ok a log F) : Ok a log F cl.persist := by
  unfold Client.persist
  split
  · next hw =>
      exact hok.save (hok.restored_of Client.writer (fun _ => rfl) (by simp [hw, Client.fresh]))
  · exact hok

theorem reshapes_emit : Reshapes a log F cl.rows (cl.emit a).rows := by
  unfold Client.emit
  split
  · exact Reshapes.filter fun h _ hl => by simp [hl.timely]
  · exact Reshapes.refl

theorem Ok.emit (hok : cl.Ok a log F) : Ok a log F (cl.emit a) := by
  unfold Client.emit
  split
  · next hk =>
    have hrows : Reshapes a log F cl.rows (cl.rows.filter fun h => !a.late h) :=
      Reshapes.filter fun h _ hl => by simp [hl.timely]
    have hres : cl.restored = true :=
      hok.restored_of Client.knowsRetired (fun _ => rfl) (by simp [hk, Client.fresh])
    apply (hok.reshape hres hrows cl.raw).setDeletes
    intro h hd
    rcases List.mem_append.mp hd with hold | hnew
    · exact hok.deletes h hold
    · simp at hnew
  · exact hok

theorem Ok.setRing (hok : cl.Ok a log F) (hres : cl.restored = true) {r : Ring}
    (hr : Covers a log F r) :
    Ok a log F (cl.setRing r) where
  within := hok.within
  position := hok.position
  phase page phase hp := by
    have hold := hok.phase page phase hp
    cases phase with
    | ensuring p h building =>
      cases building with
      | none => exact ⟨hold.1, by simp [Client.setRing]⟩
      | some r' =>
        cases r' with
        | none => exact hold
        | some r' => exact hold
    | decoding p h => exact ⟨hold.1, by simp [Client.setRing]⟩
    | answered answer => cases answer <;> exact hold
    | _ => exact hold
  ring := .inr fun r' hr' => Option.some.inj hr' ▸ hr
  lists n phase hl := by
    have hold := hok.lists n phase hl
    have hready : Ready a log F (some r) := ⟨r, rfl, hr⟩
    cases phase with
    | fetching l => exact ⟨hready, hold.2⟩
    | entering l => exact ⟨hready, hold.2⟩
    | decoding l h => exact ⟨hready, hold.2⟩
    | decrypting l h => exact ⟨hready, hold.2⟩
    | keyring r' => cases r' <;> exact hold
    | done => trivial
    | failed => trivial
  rings := hok.rings
  deletes := hok.deletes
  saves := hok.saves
  idle hno := absurd hres (by simpa [Client.setRing] using hno)

theorem Ok.setPhase (hok : cl.Ok a log F) {phase : Phase}
    (hring : ∀ r, cl.ring = some r → Covers a log F r)
    (hp : PhaseOk a log F cl.rows cl.ring cl.lists phase) : Ok a log F (cl.setPhase phase) where
  within := hok.within
  position := hok.position
  phase page phase' hpass := by
    obtain ⟨p, hp', he⟩ := Option.map_eq_some_iff.mp hpass
    have hphase : phase = phase' := by injection he
    exact hphase ▸ hp
  ring := .inr hring
  lists := hok.lists
  rings := hok.rings
  deletes := hok.deletes
  saves := hok.saves
  idle hno := by
    have hidle := hok.idle hno
    rw [hidle]
    rfl

theorem Ok.endPass (hok : cl.Ok a log F) (hring : ∀ r, cl.ring = some r → Covers a log F r) :
    Ok a log F { cl with pass := none } where
  within := hok.within
  position := hok.position
  phase page phase hp := absurd hp (by simp)
  ring := .inr hring
  lists := hok.lists
  rings := hok.rings
  deletes := hok.deletes
  saves := hok.saves
  idle hno := by
    have hidle := hok.idle hno
    rw [hidle]
    rfl

theorem Ok.setList (hok : cl.Ok a log F) (hres : cl.restored = true) {phase : ListPhase}
    (hl : ListOk a log F cl.rows cl.ring phase) (hdone : phase = .done → Good a log cl.rows F)
    (hring : (∃ r, phase = .keyring r) ∨ ∀ r, cl.ring = some r → Covers a log F r) :
    Ok a log F (cl.setList n phase) where
  within := hok.within
  position := hok.position
  phase page phase' hp := by
    apply (hok.phase page phase' hp).setLists
    intro m hm
    by_cases hnm : n = m ∧ n < cl.lists.length
    · obtain ⟨rfl, hlt⟩ := hnm
      rw [Client.setList, List.getElem?_set_self hlt] at hm
      exact .inr (hdone (Option.some.inj hm))
    · rw [Client.setList, List.getElem?_set] at hm
      split_ifs at hm
      · omega
      · exact .inl hm
  ring := by
    rcases hring with ⟨r, rfl⟩ | hr
    · refine hok.ring.imp_left ?_
      rintro ⟨page, m, head, r', hp, hm⟩
      by_cases hnm : n = m
      · subst hnm
        refine ⟨page, n, head, r, hp, ?_⟩
        exact List.getElem?_set_self (List.getElem?_eq_some_iff.mp hm).1
      · exact ⟨page, m, head, r', hp, (List.getElem?_set_ne hnm).trans hm⟩
    · exact .inr hr
  lists m phase' hm := by
    rw [Client.setList, List.getElem?_set] at hm
    split_ifs at hm
    · exact Option.some.inj hm ▸ hl
    · exact hok.lists m phase' hm
  rings := hok.rings
  deletes := hok.deletes
  saves := hok.saves
  idle hno := absurd hres (by simpa [Client.setList] using hno)

theorem getElem?_addList {lists : List ListPhase} {phase : ListPhase}
    (hm : (lists ++ [ListPhase.keyring none])[m]? = some phase) :
    lists[m]? = some phase ∨ phase = .keyring none := by
  rw [List.getElem?_append] at hm
  split at hm
  · exact .inl hm
  · refine .inr ?_
    have hmem := List.mem_of_getElem? hm
    simpa using hmem

theorem Ok.addList (hok : cl.Ok a log F) (hres : cl.restored = true) :
    Ok a log F { cl with lists := cl.lists ++ [ListPhase.keyring none] } where
  within := hok.within
  position := hok.position
  phase page phase hp := by
    apply (hok.phase page phase hp).setLists
    intro m hm
    rcases getElem?_addList hm with hold | hnew
    · exact .inl hold
    · exact absurd hnew (by simp)
  ring := by
    refine hok.ring.imp_left ?_
    rintro ⟨page, m, head, r, hp, hm⟩
    exact ⟨page, m, head, r, hp,
      (List.getElem?_append_left (List.getElem?_eq_some_iff.mp hm).1).trans hm⟩
  lists m phase hm := by
    rcases getElem?_addList hm with hold | rfl
    · exact hok.lists m phase hold
    · trivial
  rings := hok.rings
  deletes := hok.deletes
  saves := hok.saves
  idle hno := absurd hres (by simpa using hno)

@[simp] theorem persist_rows : cl.persist.rows = cl.rows := by
  unfold Client.persist Client.save; split <;> rfl

@[simp] theorem persist_ring : cl.persist.ring = cl.ring := by
  unfold Client.persist Client.save; split <;> rfl

@[simp] theorem persist_restored : cl.persist.restored = cl.restored := by
  unfold Client.persist Client.save; split <;> rfl

@[simp] theorem emit_ring : (cl.emit a).ring = cl.ring := by unfold Client.emit; split <;> rfl

@[simp] theorem emit_restored : (cl.emit a).restored = cl.restored := by
  unfold Client.emit; split <;> rfl

theorem Ok.applied (hok : cl.Ok a log F) (hring : ∀ r, cl.ring = some r → Covers a log F r)
    (hn : n ≤ F) (hg : Good a log cl.rows n) (more : Bool) (ticket : ℕ) :
    Ok a log F (cl.setPhase (.applied n more ticket)) :=
  hok.setPhase hring ⟨hn, hg⟩

theorem Ok.applyItems (hok : cl.Ok a log F) (hres : cl.restored = true)
    (hring : ∀ r, cl.ring = some r → Covers a log F r) {target : ℕ} {more changed : Bool}
    {items : List Item} (hitems : ItemsOk log F n items) (hlen : n + items.length = target)
    (htarget : target ≤ F) (hg : Good a log cl.rows n) :
    Ok a log F (cl.applyItems a n target more changed items) := by
  induction items generalizing cl n changed with
  | nil =>
    obtain rfl : n = target := by simpa using hlen
    cases changed with
    | false => exact hok.applied hring htarget hg more 0
    | true =>
      have hdrawn : Ok a log F (cl.emit a).persist := hok.emit.persist
      apply hdrawn.applied (by simpa using hring) htarget
      rw [persist_rows]
      exact hg.reshape htarget reshapes_emit
  | cons i items ih =>
    obtain ⟨hc, hi, hrest⟩ := hitems
    have hlen' : n + 1 + items.length = target := by
      rw [List.length_cons] at hlen
      omega
    have hn : n ≤ F := by omega
    obtain ⟨change, entry⟩ := i
    cases change with
    | deleted h =>
      have hdel : .deleted h ∈ log := List.mem_of_getElem? hc
      have hr : Reshapes a log F cl.rows (cl.rows.filter (· ≠ h)) := Reshapes.drop hdel
      apply ih (hok.reshape hres hr cl.raw) hres hring hrest hlen'
      apply (hg.reshape hn hr).succ hc
      · intro h' he
        exact absurd he (by simp)
      · intro h' he
        cases he
        simp
    | stored h =>
      cases entry with
      | true =>
        rw [Client.applyItems]
        split
        · next hh =>
          apply ih (hok.reshape hres Reshapes.refl (addRow cl.raw h)) hres hring hrest hlen'
          apply hg.succ hc
          · intro h' he _
            cases he
            exact hh
          · intro h' he
            exact absurd he (by simp)
        · have hopen : OpeningOk a log F cl.rows ⟨n, items, target, more, changed⟩ h :=
            ⟨hg, hc, hi h rfl, hrest, hlen', htarget⟩
          apply hok.setPhase hring
          cases hr : cl.ring with
          | none => exact hopen
          | some r => exact ⟨hopen, by simp⟩
      | false =>
        apply ih hok hres hring hrest hlen'
        apply hg.succ hc
        · intro h' he hl
          cases he
          exact absurd (hi h rfl) hl.kept
        · intro h' he
          exact absurd he (by simp)
    | aliases k =>
      apply ih hok hres hring hrest hlen'
      exact hg.succ hc (fun h' he => absurd he (by simp)) (fun h' he => absurd he (by simp))
    | other =>
      apply ih hok hres hring hrest hlen'
      exact hg.succ hc (fun h' he => absurd he (by simp)) (fun h' he => absurd he (by simp))

end Client

end Dmcn.Web.Feed
