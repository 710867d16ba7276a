import Mathlib.Algebra.Order.Group.Multiset
import OpenDmcn.Bridge.Dispatch
import OpenDmcn.Bridge.SenderBinding

/-! One verdict for an envelope. The life of one envelope is a small machine of its own, in which it
has at most one verdict as long as it is claimed only while it is stored; the queue at work makes
the moves of that machine. -/

namespace Dmcn.Bridge

open Go

/-- What matters of one envelope: how often it was queued, whether it is stored and on the list that
`dispatch` works through, whether it is claimed, how far those are who hold it, and what came of
it. -/
structure Life where
  queued : ℕ
  stored : Bool
  pending : Bool
  inFlight : Bool
  held : Multiset (Option Ending)
  verdicts : ℕ
  notices : ℕ
  removed : ℕ

namespace Life

inductive Advance : Option Ending → Option Ending → Prop where
  | work : Advance none none
  | giveBack : Advance none (some .releasing)
  | finish (notice : Bool) : Advance (some (.decided notice)) (some (.finished notice))

inductive Move (a : Life) : Life → Prop where
  | quiet {stored pending : Bool} (hstored : stored = true → a.stored = true)
      (hpending : pending = true → a.pending = true ∨ a.stored = true) :
        Move a { a with stored := stored, pending := pending }
  | arrive : Move a { a with queued := a.queued + 1, stored := true }
  | claim {pending : Bool} (hfree : a.inFlight = false) (hstored : a.stored = true)
      (hpending : pending = true → a.pending = true) :
      Move a { a with pending := pending, inFlight := true, held := none ::ₘ a.held }
  | advance {p q : Option Ending} {rest : Multiset (Option Ending)} (hheld : a.held = p ::ₘ rest)
    (hpq : Advance p q) :
      Move a { a with held := q ::ₘ rest }
  | decide {rest : Multiset (Option Ending)} (hheld : a.held = none ::ₘ rest) (notice : Bool) :
      Move a { a with held := some (.decided notice) ::ₘ rest, verdicts := a.verdicts + 1 }
  | notice {rest : Multiset (Option Ending)} {n : Bool}
    (hheld : a.held = some (.finished n) ::ₘ rest) :
      Move a { a with held := some .noticed ::ₘ rest, notices := a.notices + n.toNat }
  | remove {rest : Multiset (Option Ending)} {stored : Bool}
    (hheld : a.held = some .noticed ::ₘ rest)
      (hstored : stored = true → 1 < a.queued ∧ a.stored = true) :
      Move a { a with held := some .releasing ::ₘ rest, stored := stored, removed := a.removed + 1 }
  | release {rest : Multiset (Option Ending)} (hheld : a.held = some .releasing ::ₘ rest) :
      Move a { a with held := rest, inFlight := false }

def Fresh (l : Life) : Prop := l.verdicts = 0 ∧ l.notices = 0 ∧ l.removed = 0

def Over (l : Life) : Prop := l.verdicts = 1 ∧ l.notices ≤ 1 ∧ l.removed ≤ 1 ∧ l.stored = false

def Standing (l : Life) : Option Ending → Prop
  | none => l.Fresh
  | some (.decided _) => l.verdicts = 1 ∧ l.notices = 0 ∧ l.removed = 0
  | some (.finished _) => l.verdicts = 1 ∧ l.notices = 0 ∧ l.removed = 0
  | some .noticed => l.verdicts = 1 ∧ l.notices ≤ 1 ∧ l.removed = 0
  | some .releasing => l.Fresh ∨ l.Over

structure Sound (l : Life) : Prop where
  known : l.stored = true ∨ l.pending = true ∨ 0 < l.held.card ∨ 0 < l.verdicts → 0 < l.queued
  claimed : l.held.card = l.inFlight.toNat
  standing : l.queued ≤ 1 → ∀ p ∈ l.held, l.Standing p
  free : l.queued ≤ 1 → l.held = 0 → l.Fresh ∨ l.Over

variable {a b : Life}

theorem Sound.alone (h : a.Sound) {p : Option Ending} {rest : Multiset (Option Ending)}
    (hheld : a.held = p ::ₘ rest) :
    rest = 0 ∧ a.inFlight = true ∧ 0 < a.queued := by
  have hcard := h.claimed
  rw [hheld, Multiset.card_cons] at hcard
  have hbit := Bool.toNat_le a.inFlight
  refine ⟨Multiset.card_eq_zero.mp (by omega), ?_, ?_⟩
  · cases hflag : a.inFlight with
    | false =>
      rw [hflag, Bool.toNat_false] at hcard
      omega
    | true => rfl
  · apply h.known
    right
    right
    left
    rw [hheld, Multiset.card_cons]
    omega

theorem Sound.hold (h : a.Sound) {p q : Option Ending} {rest : Multiset (Option Ending)}
    (hheld : a.held = p ::ₘ rest) (hb : b.held = q ::ₘ rest) (hqueued : b.queued = a.queued)
    (hflag : b.inFlight = a.inFlight) (hstanding : a.queued ≤ 1 → a.Standing p → b.Standing q) :
    b.Sound := by
  obtain ⟨hrest, hclaimed, hpos⟩ := h.alone hheld
  rw [hrest] at hb
  have hcard : b.held.card = 1 := by rw [hb, Multiset.card_cons, Multiset.card_zero]
  refine ⟨fun _ => hqueued ▸ hpos, ?_, fun honce p' hp' => ?_, fun _ hnone => ?_⟩
  · rw [hcard, hflag, hclaimed]
    rfl
  · rw [hb, Multiset.cons_zero, Multiset.mem_singleton] at hp'
    rw [hp']
    rw [hqueued] at honce
    apply hstanding honce
    apply h.standing honce
    rw [hheld]
    exact Multiset.mem_cons_self p rest
  · rw [hnone, Multiset.card_zero] at hcard
    omega

theorem Sound.move (h : a.Sound) (hmove : a.Move b) : b.Sound := by
  induction hmove with
  | @quiet stored pending hstored hpending =>
    have hgone : a.stored = false → stored = false := by
      intro hnot
      cases hflag : stored with
      | false => rfl
      | true => exact absurd (hstored hflag) (by simp [hnot])
    have hover : a.Over → Over { a with stored := stored, pending := pending } :=
      fun ⟨hv, hn, hr, hnot⟩ => ⟨hv, hn, hr, hgone hnot⟩
    refine ⟨fun hmentioned => h.known ?_, h.claimed, fun honce p hp => ?_, fun honce hnone => ?_⟩
    · rcases hmentioned with hs | hp | hrest
      · exact .inl (hstored hs)
      · exact (hpending hp).elim (fun hp => .inr (.inl hp)) .inl
      · exact .inr (.inr hrest)
    · have hstanding := h.standing honce p hp
      cases p with
      | none => exact hstanding
      | some e =>
        cases e with
        | decided notice => exact hstanding
        | finished notice => exact hstanding
        | noticed => exact hstanding
        | releasing => exact hstanding.imp id hover
    · exact (h.free honce hnone).imp id hover
  | arrive =>
    refine ⟨fun _ => Nat.succ_pos _, h.claimed, fun honce p hp => ?_, fun honce hnone => ?_⟩
    · -- an envelope that was never queued is held by nobody
      have hpos := h.known (.inr (.inr (.inl (Multiset.card_pos_iff_exists_mem.mpr ⟨p, hp⟩))))
      dsimp only at honce
      omega
    · dsimp only at honce
      have hnever : a.queued = 0 := by omega
      rcases h.free (by omega) hnone with hfresh | ⟨hv, -⟩
      · exact .inl hfresh
      · have hpos := h.known (.inr (.inr (.inr (by omega))))
        omega
  | @claim pending hfree hstored hpending =>
    have hnone : a.held = 0 := by
      rw [← Multiset.card_eq_zero, h.claimed, hfree]
      rfl
    have hpos : 0 < a.queued := h.known (.inl hstored)
    refine ⟨fun _ => hpos, ?_, fun honce p hp => ?_, fun _ hnone' => ?_⟩
    · dsimp only
      rw [hnone, Multiset.card_cons, Multiset.card_zero]
      rfl
    · dsimp only at hp
      rw [hnone, Multiset.cons_zero, Multiset.mem_singleton] at hp
      rw [hp]
      rcases h.free honce hnone with hfresh | ⟨-, -, -, hgone⟩
      · exact hfresh
      · rw [hstored] at hgone
        cases hgone
    · exact absurd hnone' (Multiset.cons_ne_zero)
  | @advance p q rest hheld hpq =>
    refine h.hold hheld rfl rfl rfl fun _ hp => ?_
    cases hpq with
    | work => exact hp
    | giveBack => exact .inl hp
    | finish notice => exact hp
  | decide hheld notice =>
    refine h.hold hheld rfl rfl rfl ?_
    rintro - ⟨hv, hn, hr⟩
    exact ⟨by rw [hv], hn, hr⟩
  | @notice rest n hheld =>
    refine h.hold hheld rfl rfl rfl ?_
    rintro - ⟨hv, hn, hr⟩
    refine ⟨hv, ?_, hr⟩
    rw [hn, Nat.zero_add]
    exact Bool.toNat_le n
  | @remove rest stored hheld hstored =>
    refine h.hold hheld rfl rfl rfl ?_
    rintro honce ⟨hv, hn, hr⟩
    refine .inr ⟨hv, hn, by rw [hr], ?_⟩
    cases hflag : stored with
    | false => rfl
    | true =>
      have hmany := (hstored hflag).1
      omega
  | @release rest hheld =>
    obtain ⟨rfl, -, hpos⟩ := h.alone hheld
    refine ⟨fun _ => hpos, rfl, fun _ p hp => absurd hp (Multiset.notMem_zero p), fun honce _ => ?_⟩
    apply h.standing honce (some .releasing)
    rw [hheld]
    exact Multiset.mem_cons_self _ _

end Life

section Attempt

/-- Every final answer of SMTP can be put in a receipt: the bridge has a key to sign with, and a
refusal says why in UTF-8. -/
def Reportable (cfg : OutboundConfig) (w : OutboundSurroundings) (o : OpenedMessage) : Prop :=
  cfg.bridgePriv.length = ed25519PrivateKeySize ∧
    ∀ e ∈ w.deliver (cfg.domains.smtpFrom cfg.rt.unicode o.plaintext.senderAddress)
      o.plaintext.recipientAddress
      o.plaintext o.audience, e.deferred = false → (readUtf8 e.text).isSome = true

instance (cfg : OutboundConfig) (w : OutboundSurroundings) (o : OpenedMessage) : Decidable
    (Reportable cfg w o) :=
  inferInstanceAs (Decidable (_ ∧ _))

section Send

variable {cfg : OutboundConfig} {w : OutboundSurroundings} {h : OutboundHandler} {o : OpenedMessage}

def Answered (r : SendResult) : Prop :=
  r.attempt.receipt ≠ none ∨
    (r.attempt.receipt = none ∧ r.attempt.err ≠ none ∧ smtpVerdict r.delivered = none)

theorem conclude_receipt (hpriv : cfg.bridgePriv.length = ed25519PrivateKeySize)
    (pt : PlaintextMessage) (sender : IdentityRecord) {deliverErr : Option DeliverError}
    (htext : ∀ e, deliverErr = some e → (readUtf8 e.text).isSome = true) :
    (conclude cfg w h pt sender deliverErr).2.receipt ≠ none := by
  have hmade : makeReceipt cfg w.receiptAt pt.messageID pt.recipientAddress deliverErr ≠ none := by
    cases deliverErr with
    | none =>
      obtain ⟨r, hr, -⟩ := makeReceipt_isSome hpriv w.receiptAt pt.messageID pt.recipientAddress
      simp [hr]
    | some e =>
      obtain ⟨text, hread⟩ := Option.isSome_iff_exists.mp (htext e rfl)
      simp [makeReceipt, signReceipt, hread, hpriv]
  unfold conclude
  split
  · next hnone => exact absurd hnone hmade
  · simp

theorem answered_handToSMTP (hrep : Reportable cfg w o) (sender : IdentityRecord) :
    Answered (handToSMTP cfg w h o sender) := by
  unfold handToSMTP
  dsimp only
  split
  · exact .inl (conclude_receipt hrep.1 o.plaintext sender fun e he => by cases he)
  · next e hdeliver =>
    split
    · next hdeferred => exact .inr ⟨rfl, by simp [fail], by simp [smtpVerdict, hdeferred]⟩
    · next hfinal =>
      refine .inl (conclude_receipt hrep.1 o.plaintext sender fun e' he' => ?_)
      cases he'
      exact hrep.2 e hdeliver (by simpa using hfinal)

theorem answered_send (hrep : Reportable cfg w o) : Answered (send cfg w h o) := by
  unfold send
  dsimp only
  split
  · exact .inr ⟨rfl, by simp [fail], rfl⟩
  · next rec hlookup =>
    split
    · exact .inr ⟨rfl, by simp [fail], rfl⟩
    · unfold sendVerified
      dsimp only
      split
      · exact .inr ⟨rfl, by simp [fail], rfl⟩
      · split
        · exact .inl (conclude_receipt hrep.1 o.plaintext rec fun e he => by cases he)
        · unfold sendLimited
          dsimp only
          split
          · exact answered_handToSMTP hrep rec
          · split
            · exact .inr ⟨rfl, by simp [fail], rfl⟩
            · exact answered_handToSMTP hrep rec

end Send

theorem attempt_verdicts {cfg : BridgeConfig} {w : OutboundSurroundings} {o : OpenedMessage}
    (hrep : Reportable cfg.outbound w o) (now : Time) (h : OutboundHandler) (queuedAt : Time) :
    (attempt cfg w now h o queuedAt).verdicts.length =
      (attempt cfg w now h o queuedAt).finished.toNat := by
  have hanswered := @answered_send cfg.outbound w h o hrep
  unfold attempt
  dsimp only
  split
  · next err hreceipt herr =>
    rcases hanswered with hsome | ⟨-, -, hnone⟩
    · exact absurd hreceipt hsome
    · rw [hnone]
      split
      · rfl
      · rfl
  · rcases smtpVerdict (send cfg.outbound w h o).delivered with - | v
    · rfl
    · rfl

end Attempt

section View

def heldBy (x hash : Fixed 32) (p : Option Ending) : Multiset (Option Ending) :=
  if hash = x then {p} else 0

def HoldStage.standing : HoldStage → Option Ending
  | .ending e => some e
  | _ => none

def JobStage.standing : JobStage → Option Ending
  | .ending e => some e
  | _ => none

namespace PollPhase

def items : PollPhase → List OutboundItem
  | idle => []
  | listing items => items
  | listed items _ => items
  | forgetting _ items => items
  | next items => items
  | holds _ _ items => items

def held (x : Fixed 32) : PollPhase → Multiset (Option Ending)
  | holds it stage _ => heldBy x it.hash stage.standing
  | _ => 0

def heldItems : PollPhase → List OutboundItem
  | holds it _ _ => [it]
  | _ => []

end PollPhase

def JobStage.isRunning : JobStage → Bool
  | .running => true
  | _ => false

def jobsHeld (x : Fixed 32) (jobs : List OutboundJob) : Multiset (Option Ending) :=
  (jobs.map fun j => heldBy x j.item.hash j.stage.standing).sum

def among (x : Fixed 32) (items : List OutboundItem) : Bool := items.any fun it => it.hash = x

/-- Nothing goes wrong at the next step of the poll loop: what it claims is still stored, and a
removal goes well. -/
def PollPhase.Undisturbed (shared : Shared) (a : Answers) : PollPhase → Prop
  | .next (it :: _) => (shared.schedule.claim a.now it.hash).2 = true →
    among it.hash shared.stored = true
  | .holds _ stage _ => stage.standing = some .noticed → a.removes = true
  | _ => True

instance (shared : Shared) (a : Answers) : (p : PollPhase) → Decidable (p.Undisturbed shared a)
  | .next (_ :: _) => inferInstanceAs (Decidable (_ → _))
  | .holds _ _ _ => inferInstanceAs (Decidable (_ → _))
  | .next [] => isTrue trivial
  | .idle => isTrue trivial
  | .listing _ => isTrue trivial
  | .listed _ _ => isTrue trivial
  | .forgetting _ _ => isTrue trivial

def Shared.life (s : Shared) (x : Fixed 32) (pending : Bool) (held : Multiset (Option Ending)) :
    Life where
  queued := s.queued.countP fun it => it.hash = x
  stored := among x s.stored
  pending := pending
  inFlight := x ∈ s.schedule.inFlight
  held := held
  verdicts := s.verdicts.countP fun v => v.1 = x
  notices := s.notices.count x
  removed := s.removed.count x

def DispatchRun.life (s : DispatchRun) (x : Fixed 32) : Life :=
  s.shared.life x (among x s.poll.items) (s.poll.held x + jobsHeld x s.jobs)

end View

section Moves

open Life

variable {x : Fixed 32} {s : Shared} {pending : Bool} {rest : Multiset (Option Ending)}
  {it : OutboundItem}

theorem among_iff {items : List OutboundItem} : among x items = true ↔ ∃ it ∈ items,
    it.hash = x := by
  simp [among]

theorem Life.Move.same (a : Life) : a.Move a := .quiet id .inl

theorem move_advance {p q : Option Ending} (hpq : Advance p q) :
    (s.life x pending (heldBy x it.hash p + rest)).Move
      (s.life x pending (heldBy x it.hash q + rest)) := by
  unfold heldBy
  split
  · exact .advance rfl hpq
  · exact .same _

theorem move_decide (v : Verdict) (notice : Bool) :
    (s.life x pending (heldBy x it.hash none + rest)).Move
      ((s.verdict it.hash [v]).life x pending
        (heldBy x it.hash (some (.decided notice)) + rest)) := by
  by_cases hx : it.hash = x
  · have hmove := Move.decide (a := s.life x pending (none ::ₘ rest)) rfl notice
    simpa [heldBy, hx, Shared.life, Shared.verdict] using hmove
  · have hsame := Move.same (s.life x pending rest)
    simpa [heldBy, hx, Shared.life, Shared.verdict] using hsame

def heldAfter (x hash : Fixed 32) : Option Ending → Multiset (Option Ending)
  | some e => heldBy x hash (some e)
  | none => 0

theorem queued_twice {queued : List OutboundItem} {it' : OutboundItem} (hit : it ∈ queued)
    (hit' : it' ∈ queued) (hx : it.hash = x) (hx' : it'.hash = x)
    (hdiffer : it.sameEntry it' = false) :
    1 < queued.countP fun it => it.hash = x := by
  have hne : it ≠ it' := by
    rintro rfl
    simp [OutboundItem.sameEntry] at hdiffer
  have hsub : [it, it'].Subperm queued := by
    apply List.subperm_of_subset (by simp [hne])
    simp [hit, hit']
  have hcount := hsub.countP_le fun it => decide (it.hash = x)
  simp only [List.countP_cons, hx, hx', decide_true, if_true, List.countP_nil] at hcount
  omega

theorem move_remove (hit : it ∈ s.queued) (hstored : ∀ it' ∈ s.stored, it' ∈ s.queued) :
    (s.life x pending (heldBy x it.hash (some .noticed) + rest)).Move
      ((s.endStep it true .noticed).1.life x pending
        (heldBy x it.hash (some .releasing) + rest)) := by
  by_cases hx : it.hash = x
  · have hleft : among x (s.stored.filter fun it' => !it.sameEntry it') = true →
        1 < (s.queued.countP fun it => it.hash = x) ∧ among x s.stored = true := by
      intro hsome
      obtain ⟨it', hit', hx'⟩ := among_iff.mp hsome
      rw [List.mem_filter] at hit'
      exact ⟨queued_twice hit (hstored it' hit'.1) hx hx' (by simpa using hit'.2),
        among_iff.mpr ⟨it', hit'.1, hx'⟩⟩
    have hmove := Move.remove (a := s.life x pending (some .noticed ::ₘ rest)) rfl hleft
    simpa [heldBy, hx, Shared.life, Shared.endStep] using hmove
  · have hkept : among x (s.stored.filter fun it' => !it.sameEntry it') = among x s.stored := by
      rw [Bool.eq_iff_iff, among_iff, among_iff]
      constructor
      · rintro ⟨it', hit', hx'⟩
        exact ⟨it', List.mem_of_mem_filter hit', hx'⟩
      · rintro ⟨it', hit', hx'⟩
        refine ⟨it', List.mem_filter.mpr ⟨hit', ?_⟩, hx'⟩
        have hother : it.hash ≠ it'.hash := fun heq => hx (heq.trans hx')
        simp [OutboundItem.sameEntry, hother]
    have hsame := Move.same (s.life x pending rest)
    simpa [heldBy, hx, Shared.life, Shared.endStep, hkept] using hsame

theorem move_endStep (hit : it ∈ s.queued) (hstored : ∀ it' ∈ s.stored, it' ∈ s.queued)
    {removes : Bool} {e : Ending} (hremoves : e = .noticed → removes = true) :
    (s.life x pending (heldBy x it.hash (some e) + rest)).Move
      ((s.endStep it removes e).1.life x pending
        (heldAfter x it.hash (s.endStep it removes e).2 + rest)) := by
  cases e with
  | decided notice => exact move_advance (.finish notice)
  | finished notice =>
    by_cases hx : it.hash = x
    · have hmove := Move.notice (a := s.life x pending (some (.finished notice) ::ₘ rest)) rfl
      cases notice with
      | false => simpa [heldAfter, heldBy, hx, Shared.life, Shared.endStep] using hmove
      | true => simpa [heldAfter, heldBy, hx, Shared.life, Shared.endStep] using hmove
    · have hsame := Move.same (s.life x pending rest)
      cases notice with
      | false => simpa [heldAfter, heldBy, hx, Shared.life, Shared.endStep] using hsame
      | true => simpa [heldAfter, heldBy, hx, Shared.life, Shared.endStep] using hsame
  | noticed =>
    rw [hremoves rfl]
    exact move_remove hit hstored
  | releasing =>
    by_cases hx : it.hash = x
    · have hmove := Move.release (a := s.life x pending (some .releasing ::ₘ rest)) rfl
      simpa [heldAfter, heldBy, hx, Shared.life, Shared.endStep, RetrySchedule.release] using hmove
    · have hother : x ≠ it.hash := fun heq => hx heq.symm
      have hsame := Move.same (s.life x pending rest)
      simpa [heldAfter, heldBy, hx, hother, Shared.life, Shared.endStep, RetrySchedule.release]
        using hsame

end Moves

section Steps

open Life

variable {cfg : BridgeConfig} {s : DispatchRun} {x : Fixed 32} {e : DispatchEvent}

namespace DispatchRun

structure Recorded (s : DispatchRun) : Prop where
  stored : ∀ it ∈ s.shared.stored, it ∈ s.shared.queued
  listed : ∀ it ∈ s.poll.items, it ∈ s.shared.queued
  holding : ∀ it ∈ s.poll.heldItems, it ∈ s.shared.queued
  jobs : ∀ job ∈ s.jobs, job.item ∈ s.shared.queued

variable (cfg) in
/-- Nothing goes wrong at a step: what is claimed is still stored, no removal fails, and what SMTP
says for good can be put in a receipt. -/
def Undisturbed (s : DispatchRun) : DispatchEvent → Prop
  | .poll a => s.poll.Undisturbed s.shared a
  | .worker i a => ∀ job ∈ s.jobs[i]?,
      (job.stage.isRunning = true → Reportable cfg.outbound a.outside job.opened) ∧
        (job.stage.standing = some .noticed → a.removes = true)
  | _ => True

instance (s : DispatchRun) : (e : DispatchEvent) → Decidable (s.Undisturbed cfg e)
  | .poll _ => inferInstanceAs (Decidable (PollPhase.Undisturbed _ _ _))
  | .worker _ _ => inferInstanceAs (Decidable (∀ _ ∈ _, _))
  | .arrive _ => isTrue trivial
  | .leave _ => isTrue trivial

end DispatchRun

variable {jobs : List OutboundJob}

theorem jobsHeld_of_getElem {i : ℕ} {job : OutboundJob} (hi : jobs[i]? = some job) :
    jobsHeld x jobs = heldBy x job.item.hash job.stage.standing + jobsHeld x (jobs.eraseIdx i) := by
  induction jobs generalizing i with
  | nil => cases hi
  | cons j jobs ih =>
    cases i with
    | zero =>
      cases hi
      simp [jobsHeld]
    | succ i =>
      have hrest := ih (i := i) hi
      simp only [jobsHeld, List.map_cons, List.sum_cons, List.eraseIdx_cons_succ] at hrest ⊢
      rw [hrest, add_left_comm]

theorem jobsHeld_set {i : ℕ} {job : OutboundJob} (hi : jobs[i]? = some job) (job' : OutboundJob) :
    jobsHeld x (jobs.set i job') = heldBy x job'.item.hash job'.stage.standing +
      jobsHeld x (jobs.eraseIdx i) := by
  have hlt : i < jobs.length := (List.getElem?_eq_some_iff.mp hi).1
  have hat : (jobs.set i job')[i]? = some job' := by simp [hlt]
  rw [jobsHeld_of_getElem hat, List.eraseIdx_set_eq]

theorem life_holdStep {shared : Shared} {it : OutboundItem} {items : List OutboundItem}
    {stage : HoldStage} (hrec : DispatchRun.Recorded ⟨shared, .holds it stage items, jobs⟩)
    (a : Answers) (hremoves : stage.standing = some .noticed → a.removes = true) :
    (DispatchRun.life ⟨shared, .holds it stage items, jobs⟩ x).Move
      ((DispatchRun.holdStep cfg ⟨shared, .holds it stage items, jobs⟩ a it items stage).life
        x) := by
  have hit : it ∈ shared.queued := hrec.holding it (List.mem_singleton_self it)
  cases stage with
  | claimed =>
    unfold DispatchRun.holdStep
    dsimp only
    split
    · exact move_advance .giveBack
    · exact move_advance .work
  | opening expired =>
    unfold DispatchRun.holdStep
    dsimp only
    split
    · split
      · exact move_advance .giveBack
      · exact move_decide .expired false
    · split
      · exact move_decide .dropped false
      · exact move_advance .work
  | opened expired o => exact move_advance .work
  | noted expired o =>
    unfold DispatchRun.holdStep
    dsimp only
    split
    · -- the claim goes over to the worker
      have hheld : heldBy x it.hash none + jobsHeld x jobs = 0 +
          jobsHeld x (jobs ++ [⟨it, o, .queued⟩]) := by
        simp [jobsHeld, JobStage.standing, add_comm]
      have hsame :=
        Move.same (shared.life x (among x items) (heldBy x it.hash none + jobsHeld x jobs))
      nth_rewrite 2 [hheld] at hsame
      exact hsame
    · split
      · exact move_advance .work
      · exact move_advance .giveBack
  | expiring o => exact move_decide .expired _
  | ending e =>
    have hmove :=
      @move_endStep x shared (among x items) (jobsHeld x jobs) it hit hrec.stored a.removes e
      fun he => hremoves (by rw [he]; rfl)
    unfold DispatchRun.holdStep
    dsimp only
    cases hnext : (shared.endStep it a.removes e).2 with
    | none =>
      rw [hnext] at hmove
      exact hmove
    | some e' =>
      rw [hnext] at hmove
      exact hmove

theorem life_claim {shared : Shared} {it : OutboundItem} {items : List OutboundItem} {now : Time}
    (hclaimed : (shared.schedule.claim now it.hash).2 =
      true) (hstored : among it.hash shared.stored = true) :
    (DispatchRun.life ⟨shared, .next (it :: items), jobs⟩ x).Move
      (DispatchRun.life ⟨{ shared with schedule := (shared.schedule.claim now it.hash).1 },
        .holds it .claimed items, jobs⟩
        x) := by
  have hfree : it.hash ∉ shared.schedule.inFlight ∧
      (shared.schedule.claim now it.hash).1.inFlight = insert it.hash shared.schedule.inFlight := by
    unfold RetrySchedule.claim at hclaimed ⊢
    split at hclaimed
    · cases hclaimed
    · next hnot =>
      rw [if_neg hnot]
      exact ⟨fun hmem => hnot (.inl hmem), rfl⟩
  have hpending : among x items = true → among x (it :: items) = true := by
    intro hsome
    simp only [among, List.any_cons, Bool.or_eq_true]
    exact .inr hsome
  by_cases hx : it.hash = x
  · subst hx
    have hmove := Move.claim (a := DispatchRun.life ⟨shared, .next (it :: items), jobs⟩ it.hash)
      (by simpa [DispatchRun.life, Shared.life] using hfree.1) hstored hpending
    simpa [DispatchRun.life, Shared.life, PollPhase.items, PollPhase.held, heldBy,
      HoldStage.standing, hfree.2] using hmove
  · have hother : x ≠ it.hash := fun heq => hx heq.symm
    have hmove := Move.quiet (a := DispatchRun.life ⟨shared, .next (it :: items), jobs⟩ x) id
      fun hsome => .inl (hpending hsome)
    simpa [DispatchRun.life, Shared.life, PollPhase.items, PollPhase.held, heldBy, hx, hother,
      hfree.2] using hmove

theorem among_of_subset {items items' : List OutboundItem} (hsub : ∀ it ∈ items, it ∈ items')
    (h : among x items = true) :
    among x items' = true := by
  obtain ⟨it, hit, hx⟩ := among_iff.mp h
  exact among_iff.mpr ⟨it, hsub it hit, hx⟩

theorem life_pollStep (hrec : s.Recorded) {a : Answers} (hgood : s.Undisturbed cfg (.poll a)) :
    (s.life x).Move ((s.pollStep cfg a).life x) := by
  obtain ⟨shared, poll, jobs⟩ := s
  cases poll with
  | idle =>
    refine Move.quiet id fun hsome => .inr ?_
    exact among_of_subset (fun it hit => List.mem_of_mem_filter hit) hsome
  | listing transit =>
    refine Move.quiet id fun hsome => ?_
    obtain ⟨it, hit, hx⟩ := among_iff.mp hsome
    rcases List.mem_append.mp hit with hit | hit
    · exact .inl (among_iff.mpr ⟨it, hit, hx⟩)
    · refine .inr (among_iff.mpr ⟨it, ?_, hx⟩)
      split at hit
      · obtain ⟨i, -, hi⟩ := List.mem_filterMap.mp hit
        exact List.mem_of_mem_filter (List.mem_of_getElem? hi)
      · cases hit
  | listed items complete =>
    unfold DispatchRun.pollStep
    dsimp only
    split
    · exact .same _
    · exact .same _
  | forgetting gone items =>
    cases gone with
    | nil => exact .same _
    | cons r gone => exact .same _
  | next items =>
    cases items with
    | nil => exact .same _
    | cons it items =>
      unfold DispatchRun.pollStep
      dsimp only
      split
      · next hclaimed => exact life_claim hclaimed (hgood hclaimed)
      · refine Move.quiet id fun hsome => .inl ?_
        exact among_of_subset (fun it' hit' => List.mem_cons_of_mem it hit') hsome
  | holds it stage items =>
    exact life_holdStep hrec a hgood

theorem life_workerStep (hrec : s.Recorded) {i : ℕ} {a : Answers} {job : OutboundJob}
    (hi : s.jobs[i]? = some job) (hgood : s.Undisturbed cfg (.worker i a)) :
    (s.life x).Move ((s.workerStep cfg i a job).life x) := by
  have hit : job.item ∈ s.shared.queued := hrec.jobs job (List.mem_of_getElem? hi)
  have hbefore : s.life x = s.shared.life x (among x s.poll.items)
      (heldBy x job.item.hash job.stage.standing +
        (s.poll.held x + jobsHeld x (s.jobs.eraseIdx i))) := by
    unfold DispatchRun.life
    rw [jobsHeld_of_getElem hi, add_left_comm]
  have hafter : ∀ shared stage,
      DispatchRun.life ⟨shared, s.poll, s.jobs.set i { job with stage := stage }⟩ x =
      shared.life x (among x s.poll.items)
        (heldBy x job.item.hash stage.standing +
          (s.poll.held x + jobsHeld x (s.jobs.eraseIdx i))) := by
    intro shared stage
    unfold DispatchRun.life
    rw [jobsHeld_set hi, add_left_comm]
  rw [hbefore]
  unfold DispatchRun.workerStep
  cases hstage : job.stage with
  | queued =>
    dsimp only
    rw [hafter]
    exact move_advance .work
  | running =>
    have hreport := (hgood job hi).1 (by rw [hstage]; rfl)
    have hverdicts := attempt_verdicts hreport a.now s.shared.outbound job.item.queuedAt
    dsimp only
    split
    · next hfinished =>
      rw [hfinished, Bool.toNat_true, List.length_eq_one_iff] at hverdicts
      obtain ⟨v, hv⟩ := hverdicts
      rw [hv, hafter]
      exact move_decide v _
    · next hunfinished =>
      rw [Bool.not_eq_true] at hunfinished
      rw [hunfinished, Bool.toNat_false, List.length_eq_zero_iff] at hverdicts
      rw [hverdicts, hafter]
      have hmove := @move_advance x s.shared (among x s.poll.items)
        (s.poll.held x + jobsHeld x (s.jobs.eraseIdx i)) job.item none (some .releasing) .giveBack
      simpa [Shared.life, Shared.verdict, RetrySchedule.deferRetry, JobStage.standing] using hmove
  | ending e =>
    have hmove := @move_endStep x s.shared (among x s.poll.items)
      (s.poll.held x + jobsHeld x (s.jobs.eraseIdx i))
      job.item hit hrec.stored a.removes e fun he => (hgood job hi).2 (by rw [hstage, he]; rfl)
    dsimp only
    cases hnext : (s.shared.endStep job.item a.removes e).2 with
    | none =>
      rw [hnext, heldAfter, zero_add] at hmove
      exact hmove
    | some e' =>
      rw [hnext] at hmove
      dsimp only
      rw [hafter]
      exact hmove

theorem life_step (hrec : s.Recorded) (hgood : s.Undisturbed cfg e) : (s.life x).Move
    ((s.step cfg e).life x) := by
  cases e with
  | arrive it =>
    have hlife : (s.step cfg (.arrive it)).life x = { s.life x with
        queued := (s.shared.queued ++ [it]).countP fun it => it.hash = x
        stored := among x (s.shared.stored ++ [it]) } := rfl
    rw [hlife]
    by_cases hx : it.hash = x
    · have hqueued : ((s.shared.queued ++ [it]).countP fun it => it.hash = x) = (s.life x).queued +
          1 := by
        simp [DispatchRun.life, Shared.life, hx]
      have hstored : among x (s.shared.stored ++ [it]) = true := by simp [among, hx]
      rw [hqueued, hstored]
      exact .arrive
    · have hqueued : ((s.shared.queued ++ [it]).countP fun it => it.hash = x) =
          (s.life x).queued := by
        simp [DispatchRun.life, Shared.life, hx]
      have hstored : among x (s.shared.stored ++ [it]) = (s.life x).stored := by
        simp [DispatchRun.life, Shared.life, among, hx]
      rw [hqueued, hstored]
      exact .same _
  | leave i =>
    refine Move.quiet (fun hsome => ?_) .inl
    exact among_of_subset (fun it hit => List.mem_of_mem_eraseIdx hit) hsome
  | poll a => exact life_pollStep hrec hgood
  | worker i a =>
    unfold DispatchRun.step
    dsimp only
    split
    · next job hi => exact life_workerStep hrec hi hgood
    · exact .same _

theorem endStep_keeps (shared : Shared) (it : OutboundItem) (removes : Bool) (e : Ending) :
    (shared.endStep it removes e).1.queued = shared.queued ∧
      ∀ it' ∈ (shared.endStep it removes e).1.stored, it' ∈ shared.stored := by
  cases e with
  | decided notice => exact ⟨rfl, fun it' hit' => hit'⟩
  | finished notice => exact ⟨rfl, fun it' hit' => hit'⟩
  | noticed =>
    cases removes with
    | false => exact ⟨rfl, fun it' hit' => hit'⟩
    | true => exact ⟨rfl, fun it' hit' => List.mem_of_mem_filter hit'⟩
  | releasing => exact ⟨rfl, fun it' hit' => hit'⟩

namespace DispatchRun

theorem Recorded.holdStep {shared : Shared} {jobs : List OutboundJob} {it : OutboundItem}
    {items : List OutboundItem} {stage : HoldStage}
    (h : Recorded ⟨shared, .holds it stage items, jobs⟩) (a : Answers) :
    Recorded (holdStep cfg ⟨shared, .holds it stage items, jobs⟩ a it items stage) := by
  have hkept : ∀ stage', Recorded ⟨shared, .holds it stage' items, jobs⟩ :=
    fun _ => ⟨h.stored, h.listed, h.holding, h.jobs⟩
  cases stage with
  | claimed =>
    unfold DispatchRun.holdStep
    dsimp only
    split
    · exact hkept _
    · exact hkept _
  | opening expired =>
    unfold DispatchRun.holdStep
    dsimp only
    split
    · split
      · exact ⟨h.stored, h.listed, h.holding, h.jobs⟩
      · exact ⟨h.stored, h.listed, h.holding, h.jobs⟩
    · split
      · exact ⟨h.stored, h.listed, h.holding, h.jobs⟩
      · exact hkept _
  | opened expired o => exact ⟨h.stored, h.listed, h.holding, h.jobs⟩
  | noted expired o =>
    unfold DispatchRun.holdStep
    dsimp only
    split
    · refine ⟨h.stored, h.listed, fun it' hit' => absurd hit' List.not_mem_nil, fun job hjob => ?_⟩
      rcases List.mem_append.mp hjob with hjob | hjob
      · exact h.jobs job hjob
      · rw [List.mem_singleton.mp hjob]
        exact h.holding it (List.mem_singleton_self it)
    · split
      · exact hkept _
      · exact hkept _
  | expiring o => exact ⟨h.stored, h.listed, h.holding, h.jobs⟩
  | ending e =>
    obtain ⟨hqueued, hstored⟩ := endStep_keeps shared it a.removes e
    unfold DispatchRun.holdStep
    dsimp only
    cases hnext : (shared.endStep it a.removes e).2 with
    | none =>
      refine ⟨?_, ?_, fun it' hit' => absurd hit' List.not_mem_nil, ?_⟩
      · exact fun it' hit' => hqueued ▸ h.stored it' (hstored it' hit')
      · exact fun it' hit' => hqueued ▸ h.listed it' hit'
      · exact fun job hjob => hqueued ▸ h.jobs job hjob
    | some e' =>
      refine ⟨?_, ?_, ?_, ?_⟩
      · exact fun it' hit' => hqueued ▸ h.stored it' (hstored it' hit')
      · exact fun it' hit' => hqueued ▸ h.listed it' hit'
      · exact fun it' hit' => hqueued ▸ h.holding it' hit'
      · exact fun job hjob => hqueued ▸ h.jobs job hjob

theorem Recorded.pollStep (h : s.Recorded) (a : Answers) : (s.pollStep cfg a).Recorded := by
  obtain ⟨shared, poll, jobs⟩ := s
  cases poll with
  | idle =>
    exact ⟨h.stored, fun it hit => h.stored it (List.mem_of_mem_filter hit), h.holding, h.jobs⟩
  | listing transit =>
    refine ⟨h.stored, fun it hit => ?_, h.holding, h.jobs⟩
    rcases List.mem_append.mp hit with hit | hit
    · exact h.listed it hit
    · apply h.stored
      split at hit
      · obtain ⟨i, -, hi⟩ := List.mem_filterMap.mp hit
        exact List.mem_of_mem_filter (List.mem_of_getElem? hi)
      · cases hit
  | listed items complete =>
    unfold DispatchRun.pollStep
    dsimp only
    split
    · exact ⟨h.stored, h.listed, h.holding, h.jobs⟩
    · exact ⟨h.stored, h.listed, h.holding, h.jobs⟩
  | forgetting gone items =>
    cases gone with
    | nil => exact ⟨h.stored, h.listed, h.holding, h.jobs⟩
    | cons r gone => exact ⟨h.stored, h.listed, h.holding, h.jobs⟩
  | next items =>
    cases items with
    | nil => exact ⟨h.stored, h.listed, h.holding, h.jobs⟩
    | cons it items =>
      have hlisted : ∀ it' ∈ items, it' ∈ shared.queued :=
        fun it' hit' => h.listed it' (List.mem_cons_of_mem it hit')
      unfold DispatchRun.pollStep
      dsimp only
      split
      · refine ⟨h.stored, hlisted, fun it' hit' => ?_, h.jobs⟩
        rw [List.mem_singleton.mp hit']
        exact h.listed it List.mem_cons_self
      · exact ⟨h.stored, hlisted, h.holding, h.jobs⟩
  | holds it stage items => exact h.holdStep a

theorem Recorded.workerStep (h : s.Recorded) {i : ℕ} {job : OutboundJob}
    (hi : s.jobs[i]? = some job) (a : Answers) :
    (s.workerStep cfg i a job).Recorded := by
  have hit : job.item ∈ s.shared.queued := h.jobs job (List.mem_of_getElem? hi)
  have hset : ∀ stage, ∀ job' ∈ s.jobs.set i { job with stage := stage },
    job'.item ∈ s.shared.queued := by
    intro stage job' hjob'
    rcases List.mem_or_eq_of_mem_set hjob' with hjob' | rfl
    · exact h.jobs job' hjob'
    · exact hit
  unfold DispatchRun.workerStep
  cases job.stage with
  | queued => exact ⟨h.stored, h.listed, h.holding, hset .running⟩
  | running =>
    dsimp only
    split
    · exact ⟨h.stored, h.listed, h.holding, hset _⟩
    · exact ⟨h.stored, h.listed, h.holding, hset _⟩
  | ending e =>
    obtain ⟨hqueued, hstored⟩ := endStep_keeps s.shared job.item a.removes e
    dsimp only
    cases hnext : (s.shared.endStep job.item a.removes e).2 with
    | none =>
      refine ⟨?_, ?_, ?_, ?_⟩
      · exact fun it' hit' => hqueued ▸ h.stored it' (hstored it' hit')
      · exact fun it' hit' => hqueued ▸ h.listed it' hit'
      · exact fun it' hit' => hqueued ▸ h.holding it' hit'
      · exact fun job' hjob' => hqueued ▸ h.jobs job' (List.mem_of_mem_eraseIdx hjob')
    | some e' =>
      refine ⟨?_, ?_, ?_, ?_⟩
      · exact fun it' hit' => hqueued ▸ h.stored it' (hstored it' hit')
      · exact fun it' hit' => hqueued ▸ h.listed it' hit'
      · exact fun it' hit' => hqueued ▸ h.holding it' hit'
      · exact fun job' hjob' => hqueued ▸ hset _ job' hjob'

theorem Recorded.step (h : s.Recorded) (e : DispatchEvent) : (s.step cfg e).Recorded := by
  cases e with
  | arrive it =>
    have hmore : ∀ it' ∈ s.shared.queued, it' ∈ s.shared.queued ++ [it] :=
      fun it' hit' => List.mem_append_left _ hit'
    refine ⟨fun it' hit' => ?_, fun it' hit' => hmore it' (h.listed it' hit'), fun it' hit' =>
      hmore it' (h.holding it' hit'), fun job hjob => hmore job.item (h.jobs job hjob)⟩
    rcases List.mem_append.mp hit' with hit' | hit'
    · exact hmore it' (h.stored it' hit')
    · exact List.mem_append_right _ hit'
  | leave i =>
    exact ⟨fun it hit => h.stored it (List.mem_of_mem_eraseIdx hit), h.listed, h.holding, h.jobs⟩
  | poll a => exact h.pollStep a
  | worker i a =>
    unfold DispatchRun.step
    dsimp only
    split
    · next job hi => exact h.workerStep hi a
    · exact h

end DispatchRun

end Steps

section Runs

namespace DispatchRun

def running (s : DispatchRun) (x : Fixed 32) : ℕ := s.jobs.countP fun job => job.item.hash = x ∧
    job.stage.isRunning = true

/-- Every envelope that was queued once has at most one verdict and one notice, at most one attempt
at a time, and is not removed before its verdict. -/
def OneVerdict (s : DispatchRun) : Prop :=
  ∀ x, (s.shared.queued.countP fun it => it.hash = x) ≤ 1 →
    (s.shared.verdicts.countP fun v => v.1 = x) ≤ 1 ∧ s.shared.notices.count x ≤ 1 ∧
      s.running x ≤ 1 ∧
      (x ∈ s.shared.removed → ∃ v, (x, v) ∈ s.shared.verdicts)

end DispatchRun

theorem running_le_jobsHeld (x : Fixed 32) (jobs : List OutboundJob) :
    (jobs.countP fun job => job.item.hash = x ∧ job.stage.isRunning = true) ≤
      (jobsHeld x jobs).card := by
  induction jobs with
  | nil => exact Nat.zero_le _
  | cons job jobs ih =>
    have hjob : (if job.item.hash = x ∧ job.stage.isRunning = true then 1 else 0) ≤
        (heldBy x job.item.hash job.stage.standing).card := by
      unfold heldBy
      split
      · next hrunning => rw [if_pos hrunning.1, Multiset.card_singleton]
      · exact Nat.zero_le _
    rw [List.countP_cons, jobsHeld, List.map_cons, List.sum_cons, Multiset.card_add, ← jobsHeld]
    simp only [decide_eq_true_eq]
    omega

theorem Life.Sound.once {l : Life} (h : l.Sound) (honce : l.queued ≤ 1) :
    l.verdicts ≤ 1 ∧ l.notices ≤ 1 ∧ (0 < l.removed → 0 < l.verdicts) := by
  have hstate : l.Fresh ∨ (l.verdicts = 1 ∧ l.notices ≤ 1) := by
    rcases Multiset.empty_or_exists_mem l.held with hnone | ⟨p, hp⟩
    · rcases h.free honce hnone with hfresh | ⟨hv, hn, -⟩
      · exact .inl hfresh
      · exact .inr ⟨hv, hn⟩
    · have hstanding := h.standing honce p hp
      match p, hstanding with
      | none, hfresh => exact .inl hfresh
      | some (.decided _), ⟨hv, hn, _⟩ => exact .inr ⟨hv, hn.le.trans zero_le_one⟩
      | some (.finished _), ⟨hv, hn, _⟩ => exact .inr ⟨hv, hn.le.trans zero_le_one⟩
      | some .noticed, ⟨hv, hn, _⟩ => exact .inr ⟨hv, hn⟩
      | some .releasing, .inl hfresh => exact .inl hfresh
      | some .releasing, .inr ⟨hv, hn, _⟩ => exact .inr ⟨hv, hn⟩
  rcases hstate with ⟨hv, hn, hr⟩ | ⟨hv, hn⟩
  · omega
  · omega

theorem DispatchRun.oneVerdict_of_sound {s : DispatchRun} (h : ∀ x, (s.life x).Sound) :
    s.OneVerdict := by
  intro x honce
  obtain ⟨hv, hn, hr⟩ := (h x).once honce
  have hcard : (s.poll.held x + jobsHeld x s.jobs).card ≤ 1 := by
    have hclaimed := (h x).claimed
    rw [DispatchRun.life, Shared.life] at hclaimed
    rw [hclaimed]
    exact Bool.toNat_le _
  have hrunning := running_le_jobsHeld x s.jobs
  rw [Multiset.card_add] at hcard
  refine ⟨hv, hn, hrunning.trans (by omega), fun hmem => ?_⟩
  obtain ⟨v, hmem', hx⟩ := List.countP_pos_iff.mp (hr (List.count_pos_iff.mpr hmem))
  refine ⟨v.2, ?_⟩
  rw [← of_decide_eq_true hx]
  exact hmem'

/-- In a run that nothing disturbs, every envelope that is queued once has one verdict at most. -/
theorem one_verdict_of_undisturbed (cfg : BridgeConfig) (limiter : RateLimiter)
    {events : List DispatchEvent} (hgood : Machine.Along (DispatchRun.step cfg)
      (DispatchRun.Undisturbed cfg) (.start limiter) events) :
    Machine.Throughout (DispatchRun.step cfg) DispatchRun.OneVerdict (.start limiter) events := by
  have hstart : (DispatchRun.start limiter).Recorded ∧
      ∀ x, ((DispatchRun.start limiter).life x).Sound := by
    refine ⟨⟨?_, ?_, ?_, ?_⟩, fun x => ⟨?_, ?_, ?_, ?_⟩⟩
    · exact fun it hit => absurd hit List.not_mem_nil
    · exact fun it hit => absurd hit List.not_mem_nil
    · exact fun it hit => absurd hit List.not_mem_nil
    · exact fun job hjob => absurd hjob List.not_mem_nil
    · simp [DispatchRun.life, Shared.life, DispatchRun.start, among, PollPhase.items,
        PollPhase.held, jobsHeld]
    · simp [DispatchRun.life, Shared.life, DispatchRun.start, PollPhase.held, jobsHeld]
    · simp [DispatchRun.life, Shared.life, DispatchRun.start, PollPhase.held, jobsHeld]
    · exact fun _ _ => .inl ⟨rfl, rfl, rfl⟩
  have hsound :=
    Machine.throughout_of_along (Q := fun s => s.Recorded ∧ ∀ x, (s.life x).Sound) hstart
    (fun s e h hundisturbed => ⟨h.1.step e, fun x => (h.2 x).move (life_step h.1 hundisturbed)⟩)
      hgood
  exact hsound.imp fun s h => DispatchRun.oneVerdict_of_sound h.2

end Runs

namespace StaleList

noncomputable def cfg : BridgeConfig :=
  ⟨SharedID.cfg, 120 * Duration.hour, fun _ => some SharedID.own⟩

def envelope : OutboundItem :=
  ⟨.zero 32, Time.ofUnix 7, .transit ⟨0, Mailbox.smallEnvelope, .zero 32, "", Time.ofUnix 7⟩⟩

def a : Answers :=
  ⟨Time.ofUnix 8, [], true, true, none,
    ⟨SharedID.lookup, Time.ofUnix 8, Time.ofUnix 8, fun _ _ _ _ => some ⟨[], false⟩⟩, true⟩

def handed : List DispatchEvent := .arrive envelope :: List.replicate 10 (.poll a)

def worked : List DispatchEvent := List.replicate 6 (.worker 0 a)

theorem refused_once :
    Machine.Throughout (DispatchRun.step cfg) DispatchRun.OneVerdict (.start SharedID.limiter)
      (handed ++ worked) := by
  apply one_verdict_of_undisturbed
  decide

/-- The list is made while the worker has the message, and worked through when it has been
removed. -/
def twice : List DispatchEvent :=
  handed ++ List.replicate 2 (.poll a) ++ worked ++ List.replicate 7 (.poll a) ++
    List.replicate 4 (.worker 0 a)

theorem refused_twice :
    ¬ (Machine.run (DispatchRun.step cfg) (.start SharedID.limiter) twice).OneVerdict := by
  intro h
  have hverdicts := (h (.zero 32) (by decide)).1
  revert hverdicts
  decide

end StaleList

end Dmcn.Bridge
