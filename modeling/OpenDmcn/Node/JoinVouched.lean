import OpenDmcn.Node.JoinRuns
import OpenDmcn.IdealRuntime

/-! What an admission rests on (`admitPresented` of `join.go`): whatever the gates of a node go by
was presented by the peer itself over its own connection, and hangs on the root of its bucket, the
operator's key for the fleet and a record anchored in the DNS for a domain. -/

namespace Dmcn

open Go Guard

namespace JoinNode

variable {n : JoinNode}

def Offered (es : List JoinEvent) (p : PeerID) (observed : Option String) (b : CredentialBundle) :
    Prop :=
  ∃ offer : JoinOffer,
    (JoinEvent.request p observed offer ∈ es ∨ JoinEvent.response p observed offer ∈ es) ∧
    b ∈ offer.pairs

def Presented (n : JoinNode) (es : List JoinEvent) (p : PeerID) (adm : Admission) : Prop :=
  ∃ (i : ℕ) (t : Time) (observed : Option String) (b : CredentialBundle), JoinEvent.verify i t ∈
    es ∧
    Offered es p observed b ∧ n.admitPresented t p observed b = .ok adm

variable {es : List JoinEvent} {p : PeerID} {observed : Option String}

theorem Offered.later {b : CredentialBundle} (h : Offered es p observed b) (e : JoinEvent) :
    Offered (es ++ [e]) p observed b := by
  obtain ⟨offer, hevent, hb⟩ := h
  exact ⟨offer, hevent.imp (List.mem_append_left _) (List.mem_append_left _), hb⟩

theorem Presented.later {adm : Admission} (h : n.Presented es p adm) (e : JoinEvent) :
    n.Presented (es ++ [e]) p adm := by
  obtain ⟨i, t, observed, b, hverify, hoffered, hok⟩ := h
  exact ⟨i, t, observed, b, List.mem_append_left _ hverify, hoffered.later e, hok⟩

structure JobSound (n : JoinNode) (es : List JoinEvent) (j : JoinJob) : Prop where
  pairs : ∀ b ∈ j.pairs, Offered es j.peer j.observed b
  verified : ∀ adm, j.verified = some adm → n.Presented es j.peer adm

inductive JobOrigin (n : JoinNode) (s : JoinState) (e : JoinEvent) (j' : JoinJob) : Prop
  | old (hmem : j' ∈ s.jobs)
  | request {p : PeerID} {observed : Option String} {offer : JoinOffer}
    (he : e = .request p observed offer)
      (hj : j' = newJob p observed true offer)
  | response {p : PeerID} {observed : Option String} {offer : JoinOffer}
    (he : e = .response p observed offer)
      (hj : j' = newJob p observed false offer)
  | verify {i : ℕ} {now : Time} {j : JoinJob} (he : e = .verify i now) (hmem : j ∈ s.jobs)
      (hj : j' = n.verifyNext now j)
  | record {j : JoinJob} (hmem : j ∈ s.jobs)
    (hj : j' = { j with verified := none, admitted := j.admitted + 1 })

theorem mem_modify {α : Type} {f : α → α} {l : List α} {i : ℕ} {a : α} (h : a ∈ l.modify i f) :
    a ∈ l ∨ ∃ b ∈ l, a = f b := by
  obtain ⟨k, hk⟩ := List.mem_iff_getElem?.mp h
  rw [List.getElem?_modify] at hk
  obtain ⟨b, hb, hab⟩ := Option.map_eq_some_iff.mp hk
  have hmem : b ∈ l := List.mem_of_getElem? hb
  by_cases hik : i = k
  · rw [if_pos hik] at hab
    exact .inr ⟨b, hmem, hab.symm⟩
  · rw [if_neg hik] at hab
    exact .inl (hab ▸ hmem)

theorem jobOrigin_step {s : JoinState} {e : JoinEvent} {j' : JoinJob} (h : j' ∈ (n.step s e).jobs) :
    JobOrigin n s e j' := by
  cases e with
  | opened p => exact .old h
  | closed p =>
    simp only [step] at h
    split at h
    · exact .old h
    · exact .old h
  | disconnected p =>
    simp only [step] at h
    split at h
    · exact .old h
    · split at h
      · exact .old h
      · exact .old h
  | initiateJoin p =>
    simp only [step] at h
    split at h
    · exact .old h
    · exact .old h
  | request p observed offer =>
    simp only [step] at h
    split at h
    · exact .old h
    · rcases List.mem_append.mp h with hmem | hnew
      · exact .old hmem
      · exact .request rfl (List.mem_singleton.mp hnew)
  | response p observed offer =>
    simp only [step] at h
    split at h
    · exact .old h
    · split at h
      · rcases List.mem_append.mp h with hmem | hnew
        · exact .old hmem
        · exact .response rfl (List.mem_singleton.mp hnew)
      · exact .old h
  | noResponse p => exact .old h
  | verify i now =>
    rcases mem_modify h with hmem | ⟨j, hmem, hj⟩
    · exact .old hmem
    · exact .verify rfl hmem hj
  | record i now =>
    simp only [step] at h
    split at h
    · next j hj =>
      split at h
      · rcases List.mem_or_eq_of_mem_set h with hmem | hnew
        · exact .old hmem
        · exact .record (List.mem_of_getElem? hj) hnew
      · exact .old h
    · exact .old h
  | finish i =>
    simp only [step] at h
    split at h
    · split at h
      · exact .old (List.mem_of_mem_eraseIdx h)
      · exact .old h
    · exact .old h
  | stream p now => exact .old h
  | requestRead i op =>
    simp only [step] at h
    split at h
    · exact .old h
    · exact .old h

theorem JobSound.later {j : JoinJob} (h : JobSound n es j) (e : JoinEvent) :
    JobSound n (es ++ [e]) j :=
  ⟨fun b hb => (h.pairs b hb).later e, fun adm hadm => (h.verified adm hadm).later e⟩

theorem JobSound.verifyNext {j : JoinJob} (h : JobSound n es j) {i : ℕ} {now : Time}
    (hverify : JoinEvent.verify i now ∈ es) : JobSound n es (n.verifyNext now j) := by
  unfold JoinNode.verifyNext
  split
  · next b rest hnone hpairs =>
    have hrest : ∀ b' ∈ rest, Offered es j.peer j.observed b' := fun b' hb' =>
      h.pairs b' (by rw [hpairs]; exact List.mem_cons_of_mem _ hb')
    split
    · next adm hok =>
      refine ⟨hrest, ?_⟩
      intro adm' hadm
      rw [← Option.some.inj hadm]
      exact ⟨i, now, j.observed, b, hverify,
        h.pairs b (by rw [hpairs]; exact List.mem_cons_self ..), hok⟩
    · exact ⟨hrest, h.verified⟩
  · exact h

theorem JobSound.of_offer {responder : Bool} {offer : JoinOffer}
    (h : JoinEvent.request p observed offer ∈ es ∨ JoinEvent.response p observed offer ∈ es) :
    JobSound n es (newJob p observed responder offer) :=
  ⟨fun _ hb => ⟨offer, h, hb⟩, fun _ hadm => by cases hadm⟩

structure Sound (n : JoinNode) (es : List JoinEvent) (s : JoinState) : Prop where
  jobs : ∀ j ∈ s.jobs, JobSound n es j
  kept : ∀ p adm, JoinNote.kept p adm ∈ s.history → n.Presented es p adm

theorem Sound.step {s : JoinState} (h : Sound n es s) (e : JoinEvent) :
    Sound n (es ++ [e]) (n.step s e) := by
  have he : e ∈ es ++ [e] := List.mem_append_right _ (List.mem_singleton_self e)
  constructor
  · intro j' hj'
    cases jobOrigin_step hj' with
    | old hmem => exact (h.jobs j' hmem).later e
    | request heq hj =>
      rw [hj]
      exact .of_offer (.inl (heq ▸ he))
    | response heq hj =>
      rw [hj]
      exact .of_offer (.inr (heq ▸ he))
    | verify heq hmem hj =>
      subst heq
      rw [hj]
      exact ((h.jobs _ hmem).later _).verifyNext he
    | record hmem hj =>
      rw [hj]
      exact ⟨((h.jobs _ hmem).later e).pairs, fun _ hadm => by cases hadm⟩
  · intro p adm hkept
    cases step_changes (n := n) s e with
    | none hset hhistory hstreams =>
      rw [hhistory] at hkept
      exact (h.kept p adm hkept).later e
    | answered hset hhistory hstreams =>
      rw [hhistory] at hkept
      rcases List.mem_append.mp hkept with hold | hnew
      · exact (h.kept p adm hold).later e
      · cases List.mem_singleton.mp hnew
    | stream heq hset hhistory hstreams =>
      rw [hhistory] at hkept
      rcases List.mem_append.mp hkept with hold | hnew
      · exact (h.kept p adm hold).later e
      · cases List.mem_singleton.mp hnew
    | request heq hi hset hhistory hstreams =>
      rw [hhistory] at hkept
      rcases List.mem_append.mp hkept with hold | hnew
      · exact (h.kept p adm hold).later e
      · cases List.mem_singleton.mp hnew
    | @kept i now j adm' heq hj hadm hset hhistory hstreams =>
      rw [hhistory] at hkept
      rcases List.mem_append.mp hkept with hold | hnew
      · exact (h.kept p adm hold).later e
      · cases List.mem_singleton.mp hnew
        exact ((h.jobs j (List.mem_of_getElem? hj)).verified adm hadm).later e
    | dropped heq hconns hset hhistory hstreams =>
      rw [hhistory] at hkept
      rcases List.mem_append.mp hkept with hold | hnew
      · exact (h.kept p adm hold).later e
      · cases List.mem_singleton.mp hnew

theorem sound_after (peerLimiter : RateLimiter) (es : List JoinEvent) : Sound n es
    (n.after peerLimiter es) := by
  induction es using List.reverseRecOn with
  | nil =>
    exact ⟨fun j hj => by simp [after, start] at hj,
      fun p adm hkept => by simp [after, start] at hkept⟩
  | append_singleton es e ih =>
    rw [after_append]
    exact ih.step e

theorem mem_of_mem_onRecord {adm : Admission} {history : List JoinNote}
    (h : adm ∈ onRecord p history) :
    JoinNote.kept p adm ∈ history := by
  -- induction on the history, from the last note
  induction history using List.reverseRecOn with
  | nil => simp at h
  | append_singleton history note ih =>
    rw [onRecord_append] at h
    cases note with
    | kept q adm' =>
      simp only [onRecordStep] at h
      split at h
      · next hq =>
        rcases List.mem_cons.mp h with rfl | hold
        · rw [hq]
          exact List.mem_append_right _ (List.mem_singleton_self _)
        · exact List.mem_append_left _ (ih hold)
      · exact List.mem_append_left _ (ih h)
    | dropped q =>
      simp only [onRecordStep] at h
      split at h
      · cases h
      · exact List.mem_append_left _ (ih h)
    | answered q resp => exact List.mem_append_left _ (ih h)
    | handled q hd => exact List.mem_append_left _ (ih h)

theorem mem_of_fleetOf {adms : List Admission} {c : Credential} (h : fleetOf adms = some c) :
    Admission.fleet c ∈ adms := by
  obtain ⟨adm, hmem, hadm⟩ := List.exists_of_findSome?_eq_some h
  cases adm with
  | fleet c' => rwa [← Option.some.inj hadm]
  | domain c' => cases hadm

theorem mem_of_mem_domainsOf {rt : Runtime} {adms : List Admission} {c : Credential}
    (h : c ∈ domainsOf rt adms) :
    Admission.domain c ∈ adms := by
  induction adms with
  | nil => cases h
  | cons adm older ih =>
    cases adm with
    | fleet c' => exact List.mem_cons_of_mem _ (ih h)
    | domain c' =>
      rcases List.mem_cons.mp h with rfl | hold
      · exact List.mem_cons_self ..
      · exact List.mem_cons_of_mem _ (ih (List.mem_filter.mp hold).1)

structure OperatorVouches (n : JoinNode) (p : PeerID) (t : Time) (c : Credential) : Prop where
  subject : n.extractPublicKey p = some c.subject
  operator : c.issuerPub = n.operatorPub
  signed : c.verifySignature n.rt = true
  unexpired : c.notAfter.isZero = true ∨ t.after (c.notAfter.add credSkew) = false
  effective : c.effectiveFrom.isZero = true ∨ (t.add credSkew).before c.effectiveFrom = false
  covered : CoveredBy rootGrants c

/-- A domain stands behind it: the record that came with it is the one the DNS names at `t`, the
chain starts at its root, and whoever is in the chain holds what the credential carries. -/
structure DomainVouches (n : JoinNode) (p : PeerID) (t : Time) (dar : DomainAuthorityRecord)
    (c : Credential) :
    Prop where
  subject : n.extractPublicKey p = some c.subject
  notOperator : n.operatorPub.length = Crypto.ed25519PublicKeySize → c.issuerPub ≠ n.operatorPub
  domain : dar.domain = c.domain
  self : dar.verify n.rt = true
  anchored : n.registry.dnsVerify t c.domain (dar.fingerprint n.rt) = true
  chain : ∃ rest, ChainHolds n.rt dar (n.registry.lookupCredentialBlockList t c.domain) t
    (c :: rest) ∧
    ∀ issuer ∈ rest, c.grants ⊆ issuer.grants

theorem admitPresented_fleet {t : Time} {b : CredentialBundle} {c : Credential}
    (h : n.admitPresented t p observed b = .ok (.fleet c)) :
    (∃ pb, b.credential = some pb ∧ c = .fromProto pb) ∧ OperatorVouches n p t c := by
  simp only [admitPresented, need_bind, unit_bind, require_eq_ok] at h
  obtain ⟨pb, hpb, raw, hraw, hsubject, h⟩ := h
  split at h
  · next hoperator =>
    simp only [unit_bind, wrap_eq_ok, pure_eq_ok, Admission.fleet.injEq] at h
    obtain ⟨hverify, -, rfl⟩ := h
    simp only [verifyFleetCredential, unit_bind, require_eq_ok, refuse_eq_ok, wrap_eq_ok,
      Bool.and_eq_true, Bool.not_eq_true', not_and, Bool.not_eq_true] at hverify
    obtain ⟨-, hsigned, hissuer, hafter, hfrom, hauth⟩ := hverify
    refine ⟨⟨pb, hpb, rfl⟩, ?_, hissuer, hsigned, ?_, ?_, (authorizes_eq_ok.mp hauth).1⟩
    · rw [hraw, hsubject]
    · exact (Bool.eq_false_or_eq_true _).imp id hafter
    · exact (Bool.eq_false_or_eq_true _).imp id hfrom
  · simp only [need_bind, unit_bind, pure_eq_ok, reduceCtorEq, and_false, exists_false] at h

theorem admitPresented_domain {t : Time} {b : CredentialBundle} {c : Credential}
    (h : n.admitPresented t p observed b = .ok (.domain c)) :
    ∃ pb dpb, b.credential = some pb ∧ b.dar = some dpb ∧ c = .fromProto pb ∧
      DomainVouches n p t (.fromProto dpb) c := by
  simp only [admitPresented, need_bind, unit_bind, require_eq_ok] at h
  obtain ⟨pb, hpb, raw, hraw, hsubject, h⟩ := h
  split at h
  · simp only [unit_bind, pure_eq_ok, reduceCtorEq, and_false] at h
  · next hoperator =>
    simp only [need_bind, unit_bind, wrap_eq_ok, pure_eq_ok, Admission.domain.injEq] at h
    obtain ⟨dpb, hdpb, hverify, -, rfl⟩ := h
    simp only [Registry.verifyCredentialWithDAR, Registry.checkAnchored, need_bind, unit_bind,
      require_eq_ok, wrap_eq_ok, Option.some.injEq, exists_eq_left', verifyCredential_some]
        at hverify
    obtain ⟨hdomain, hself, hdns, hchain⟩ := hverify
    have hholds := chainHolds_of_verifyChain hchain
    refine ⟨pb, dpb, hpb, hdpb, rfl, ?_, ?_, hdomain, hself, hdns, _, hholds, ?_⟩
    · rw [hraw, hsubject]
    · exact fun hsize hissuer => hoperator ⟨hsize, hissuer⟩
    · intro issuer hissuer
      exact (List.rel_of_pairwise_cons hholds.covered hissuer).grants

/-- The peer presented the credential in the run, and its root stands behind it at the moment it was
verified. -/
def Vouched (n : JoinNode) (es : List JoinEvent) (p : PeerID) : Admission → Prop
  | .fleet c =>
    ∃ (i : ℕ) (t : Time) (observed : Option String) (b : CredentialBundle) (pb : Pb.Credential),
      JoinEvent.verify i t ∈ es ∧ Offered es p observed b ∧ b.credential = some pb ∧
        c = .fromProto pb ∧
        OperatorVouches n p t c
  | .domain c =>
    ∃ (i : ℕ) (t : Time) (observed : Option String) (b : CredentialBundle) (pb : Pb.Credential)
      (dpb : Pb.DomainAuthorityRecord), JoinEvent.verify i t ∈ es ∧ Offered es p observed b ∧
        b.credential = some pb ∧
        b.dar = some dpb ∧ c = .fromProto pb ∧ DomainVouches n p t (.fromProto dpb) c

theorem Presented.vouched {adm : Admission} (h : n.Presented es p adm) :
    n.Vouched es p adm := by
  obtain ⟨i, t, observed, b, hverify, hoffered, hok⟩ := h
  cases adm with
  | fleet c =>
    obtain ⟨⟨pb, hpb, hc⟩, hvouches⟩ := admitPresented_fleet hok
    exact ⟨i, t, observed, b, pb, hverify, hoffered, hpb, hc, hvouches⟩
  | domain c =>
    obtain ⟨pb, dpb, hpb, hdpb, hc, hvouches⟩ := admitPresented_domain hok
    exact ⟨i, t, observed, b, pb, dpb, hverify, hoffered, hpb, hdpb, hc, hvouches⟩

theorem vouched_of_kept {peerLimiter : RateLimiter} {adm : Admission}
    (h : JoinNote.kept p adm ∈ (n.after peerLimiter es).history) :
    n.Vouched es p adm :=
  ((sound_after peerLimiter es).kept p adm h).vouched

/-- Whoever is on the other end: a fleet grant is one that the operator signed for that peer's key,
a grant over a domain is one that the domain's own root delegated down to it, neither bucket answers
for the other, and the relay ran an operation for federated peers only for a peer of the allow-set
or one that had presented such a credential. -/
theorem gates_rooted (n : JoinNode) (peerLimiter : RateLimiter) (es : List JoinEvent) :
    (∀ p g, (n.after peerLimiter es).set.hasFleetGrant p g = true →
      ∃ c, n.Vouched es p (.fleet c) ∧ c.hasGrant g = true) ∧
    (∀ p g d, (n.after peerLimiter es).set.hasGrant n.rt p g d = true →
      ∃ c, n.Vouched es p (.domain c) ∧ c.hasGrant g = true ∧ c.coversDomain n.rt d = true) ∧
    ∀ before p op later,
      (n.after peerLimiter es).history = before ++ .handled p (.ran op) :: later →
      op.federated = true →
      n.static.any (· p) = true ∨ ∃ adm ∈ onRecord p before, n.Vouched es p adm := by
  have hbooks := books_after (n := n) peerLimiter es
  refine ⟨?_, ?_, ?_⟩
  · intro p g hgrant
    obtain ⟨c, hc, hg⟩ := (hbooks.any_fleet p fun c => c.hasGrant g).mp hgrant
    exact ⟨c, vouched_of_kept (mem_of_mem_onRecord (mem_of_fleetOf hc)), hg⟩
  · intro p g d hgrant
    obtain ⟨c, hc, hg⟩ :=
      (hbooks.any_domain p fun c => c.hasGrant g && c.coversDomain n.rt d).mp hgrant
    obtain ⟨hgrants, hcovers⟩ := Bool.and_eq_true_iff.mp hg
    exact ⟨c, vouched_of_kept (mem_of_mem_onRecord (mem_of_mem_domainsOf hc)), hgrants, hcovers⟩
  · intro before p op later hhistory hfederated
    have hjudged := (allJudged_after (n := n) peerLimiter es).2 before p _ later hhistory
    refine (hjudged.2 hfederated).imp id fun hstanding => ?_
    obtain ⟨adm, hadm⟩ := List.exists_mem_of_ne_nil _ hstanding
    have hkept : JoinNote.kept p adm ∈ (n.after peerLimiter es).history := by
      rw [hhistory]
      exact List.mem_append_left _ (mem_of_mem_onRecord hadm)
    exact ⟨adm, hadm, vouched_of_kept hkept⟩

end JoinNode

end Dmcn
