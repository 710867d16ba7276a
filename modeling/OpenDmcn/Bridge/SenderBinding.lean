import OpenDmcn.Bridge.Outbound
import OpenDmcn.IdealRuntime
import OpenDmcn.Lib.Run

/-! Under whose name the bridge sends, and what its receipts say, over every sequence of attempts.
What is remembered under a message ID and a recipient is used for every later message with the same
two, whoever wrote it. -/

namespace Dmcn.Bridge

open Go

namespace Retrying

variable {r : Retrying} {k k' : DeliveryKey}

def signer (r : Retrying) (k : DeliveryKey) : Bytes := (r.get k).signer

def Fades (r r' : Retrying) (k : DeliveryKey) : Prop := r'.signer k = r.signer k ∨ r'.signer k = []

theorem Fades.trans {r₁ r₂ r₃ : Retrying} (h : Fades r₁ r₂ k) (h' : Fades r₂ r₃ k) :
    Fades r₁ r₃ k := by
  rcases h' with heq | hnil
  · rcases h with heq' | hnil'
    · exact .inl (heq.trans heq')
    · exact .inr (heq.trans hnil')
  · exact .inr hnil

theorem fades_forget (r : Retrying) (k k' : DeliveryKey) : Fades r (r.forget k) k' := by
  unfold Fades signer get forget
  by_cases hk : k' = k
  · subst hk
    rw [AList.lookup_erase]
    exact .inr rfl
  · rw [AList.lookup_erase_ne hk]
    exact .inl rfl

theorem signer_update_self (r : Retrying) (k : DeliveryKey) (change : RetryRecord → RetryRecord) :
    ∃ old, (r.update k change).signer k = (change old).signer ∧
      (old.signer = r.signer k ∨ old.signer = []) := by
  unfold update signer
  dsimp only
  split
  · refine ⟨get ∅ k, ?_, .inr rfl⟩
    unfold get
    rw [AList.lookup_insert]
    rfl
  · refine ⟨r.get k, ?_, .inl rfl⟩
    unfold get
    rw [AList.lookup_insert]
    rfl

theorem fades_update_other (r : Retrying) (change : RetryRecord → RetryRecord) (hk : k' ≠ k) :
    Fades r (r.update k change) k' := by
  unfold Fades update signer get
  dsimp only
  rw [AList.lookup_insert_ne hk]
  split
  · exact .inr rfl
  · exact .inl rfl

theorem fades_update_passed (r : Retrying) (k k' : DeliveryKey) :
    Fades r (r.update k fun rec => { rec with passed := true }) k' := by
  by_cases hk : k' = k
  · subst hk
    obtain ⟨old, hsigner, hold⟩ := signer_update_self r k' fun rec => { rec with passed := true }
    unfold Fades
    rw [hsigner]
    exact hold
  · exact fades_update_other r _ hk

end Retrying

section Spec

variable {cfg : OutboundConfig} {pt : PlaintextMessage}

/-- What an attempt at `pt` leaves in the memory: a signer is entered for this message only, and
exactly when it is to be retried after its sender was verified. -/
structure Remembers (cfg : OutboundConfig) (pt : PlaintextMessage) (r r' : Retrying)
    (a : OutboundAttempt) : Prop where
  other : ∀ k, k ≠ cfg.key pt → r.Fades r' k
  own : if a.retry = true ∧ a.sender.isSome = true then r'.signer (cfg.key pt) = pt.senderPublicKey
    else r.Fades r' (cfg.key pt)

theorem Remembers.of_fades {r r₁ r' : Retrying} {a : OutboundAttempt} (hfades : ∀ k, r.Fades r₁ k)
    (h : Remembers cfg pt r₁ r' a) : Remembers cfg pt r r' a where
  other k hk := (hfades k).trans (h.other k hk)
  own := by
    have hown := h.own
    split at hown
    · next hretry =>
      rw [if_pos hretry]
      exact hown
    · next hretry =>
      rw [if_neg hretry]
      exact (hfades _).trans hown

theorem remembers_fail (h : OutboundHandler) (sender : Option IdentityRecord) (retry : Bool)
    (err : OutboundError) :
    Remembers cfg pt h.retrying (fail cfg h pt sender retry err).1.retrying
      (fail cfg h pt sender retry err).2 := by
  unfold fail
  cases retry with
  | false => exact ⟨fun k _ => Retrying.fades_forget _ _ k, Retrying.fades_forget _ _ _⟩
  | true =>
    cases sender with
    | none => exact ⟨fun _ _ => .inl rfl, .inl rfl⟩
    | some rec =>
      let change : RetryRecord → RetryRecord := fun r => { r with signer := pt.senderPublicKey }
      refine ⟨fun k hk => Retrying.fades_update_other h.retrying change hk, ?_⟩
      obtain ⟨old, hsigner, -⟩ := Retrying.signer_update_self h.retrying (cfg.key pt) change
      exact hsigner

theorem remembers_conclude (w : OutboundSurroundings) (h : OutboundHandler)
    (sender : IdentityRecord) (deliverErr : Option DeliverError) :
    Remembers cfg pt h.retrying (conclude cfg w h pt sender deliverErr).1.retrying
      (conclude cfg w h pt sender deliverErr).2 := by
  unfold conclude
  split
  · exact remembers_fail h (some sender) true .receipt
  · exact ⟨fun _ _ => .inl rfl, .inl rfl⟩

variable {o : OpenedMessage}

theorem remembers_handToSMTP (w : OutboundSurroundings) (h : OutboundHandler)
    (sender : IdentityRecord) :
    Remembers cfg o.plaintext h.retrying (handToSMTP cfg w h o sender).handler.retrying
      (handToSMTP cfg w h o sender).attempt := by
  unfold handToSMTP
  dsimp only
  split
  · apply Remembers.of_fades (Retrying.fades_forget h.retrying (cfg.key o.plaintext))
    exact remembers_conclude w ⟨h.limiter, mark h.seen (cfg.key o.plaintext), _⟩ sender none
  · next e _ =>
    split
    · exact remembers_fail h (some sender) true (.delivery e)
    · apply Remembers.of_fades (Retrying.fades_forget h.retrying (cfg.key o.plaintext))
      exact remembers_conclude w ⟨h.limiter, h.seen, _⟩ sender (some e)

theorem remembers_sendVerified (w : OutboundSurroundings) (h : OutboundHandler)
    (sender : IdentityRecord) :
    Remembers cfg o.plaintext h.retrying (sendVerified cfg w h o sender).handler.retrying
      (sendVerified cfg w h o sender).attempt := by
  unfold sendVerified
  dsimp only
  split
  · next err _ _ => exact remembers_fail h (some sender) false err
  · split
    · exact remembers_conclude w h sender none
    · unfold sendLimited
      dsimp only
      split
      · exact remembers_handToSMTP w h sender
      · split
        · exact remembers_fail { h with limiter := _ } (some sender) true .rateLimited
        · apply Remembers.of_fades (Retrying.fades_update_passed h.retrying (cfg.key o.plaintext))
          exact remembers_handToSMTP w ⟨_, h.seen, _⟩ sender

theorem remembers_send (w : OutboundSurroundings) (h : OutboundHandler) :
    Remembers cfg o.plaintext h.retrying (send cfg w h o).handler.retrying
      (send cfg w h o).attempt := by
  unfold send
  dsimp only
  split
  · exact remembers_fail h none true .senderNotFound
  · split
    · exact remembers_fail h none true .senderKeyMismatch
    · exact remembers_sendVerified w h _

theorem signedBySender_of_send {w : OutboundSurroundings} {h : OutboundHandler}
    (hsent : (send cfg w h o).attempt.sender.isSome = true ∨ (send cfg w h o).delivered.isSome =
      true) :
    ∃ rec, w.lookup o.plaintext.senderAddress = some rec ∧ signedBySender cfg h rec o.plaintext =
      true := by
  unfold send at hsent
  dsimp only at hsent
  cases hlookup : w.lookup o.plaintext.senderAddress with
  | none =>
    rw [hlookup] at hsent
    simp [fail] at hsent
  | some rec =>
    rw [hlookup] at hsent
    dsimp only at hsent
    refine ⟨rec, rfl, ?_⟩
    by_cases hsigned : signedBySender cfg h rec o.plaintext = true
    · exact hsigned
    · rw [if_pos (by simpa using hsigned)] at hsent
      simp [fail] at hsent

end Spec

/-- What happens to the handler: an attempt at a message that was opened, or something remembered is
forgotten because the bridge has given up on the message or it has left the queue. -/
inductive OutboundStep where
  | send (w : OutboundSurroundings) (o : OpenedMessage)
  | forget (k : DeliveryKey)

/-- A run of the handler, with the keys that the senders' records had at the attempts, the sender
that each remembered signer was last verified for, and the messages that SMTP has accepted. -/
structure OutboundRun where
  handler : OutboundHandler
  published : List (String × Bytes)
  verifiedFor : DeliveryKey → String
  accepted : List PlaintextMessage

namespace OutboundRun

variable (cfg : OutboundConfig)

def start (limiter : RateLimiter) : OutboundRun := ⟨⟨limiter, ∅, ∅⟩, [], fun _ => "", []⟩

def step (s : OutboundRun) : OutboundStep → OutboundRun
  | .send w o =>
    let r := send cfg w s.handler o
    { handler := r.handler
      published :=
        match w.lookup o.plaintext.senderAddress with
        | none => s.published
        | some rec => (o.plaintext.senderAddress, rec.ed25519Public) :: s.published
      verifiedFor :=
        if r.attempt.retry = true ∧ r.attempt.sender.isSome = true then
          Function.update s.verifiedFor (cfg.key o.plaintext) o.plaintext.senderAddress
        else s.verifiedFor
      accepted :=
        match r.delivered with
        | some (pt, none) => pt :: s.accepted
        | _ => s.accepted }
  | .forget k => { s with handler := { s.handler with retrying := s.handler.retrying.forget k } }

theorem handler_step (s : OutboundRun) (w : OutboundSurroundings) (o : OpenedMessage) :
    (s.step cfg (.send w o)).handler = (send cfg w s.handler o).handler := rfl

/-- Whatever the step sends is signed by a key that the record of its sender has, or had at an
earlier attempt. -/
def SenderBound (s : OutboundRun) : OutboundStep → Prop
  | .send w o => (send cfg w s.handler o).delivered.isSome = true →
    (o.plaintext.senderAddress, o.plaintext.senderPublicKey) ∈ (s.step cfg (.send w o)).published
  | .forget _ => True

/-- The signer that is remembered under the ID and the recipient of a message is not that of a
message that named another sender; it does not matter where the record of the sender has that very
key. -/
def Unshared (s : OutboundRun) : OutboundStep → Prop
  | .send w o => ∀ rec, w.lookup o.plaintext.senderAddress = some rec →
    rec.ed25519Public ≠ o.plaintext.senderPublicKey →
    s.handler.retrying.signer (cfg.key o.plaintext) = o.plaintext.senderPublicKey →
      s.verifiedFor (cfg.key o.plaintext) = o.plaintext.senderAddress
  | .forget _ => True

def SignersVerified (s : OutboundRun) : Prop :=
  ∀ k, s.handler.retrying.signer k ≠ [] → (s.verifiedFor k, s.handler.retrying.signer k) ∈
    s.published

variable {cfg} {s : OutboundRun}

variable {w : OutboundSurroundings}

theorem verifiedFor_step {o : OpenedMessage}
    (hretry : (send cfg w s.handler o).attempt.retry = true ∧
      (send cfg w s.handler o).attempt.sender.isSome = true) :
    (s.step cfg (.send w o)).verifiedFor (cfg.key o.plaintext) = o.plaintext.senderAddress := by
  unfold step
  dsimp only
  rw [if_pos hretry, Function.update_self]

theorem accepted_step {o : OpenedMessage} {pt : PlaintextMessage}
    (hdelivered : (send cfg w s.handler o).delivered = some (pt, none)) :
    (s.step cfg (.send w o)).accepted = pt :: s.accepted := by
  unfold step
  dsimp only
  rw [hdelivered]

theorem accepted_step_none {o : OpenedMessage}
    (hdelivered : (send cfg w s.handler o).delivered = none) :
    (s.step cfg (.send w o)).accepted = s.accepted := by
  unfold step
  dsimp only
  rw [hdelivered]

theorem published_step (s : OutboundRun) (call : OutboundStep) : ∀ e ∈ s.published,
    e ∈ (s.step cfg call).published := by
  intro e he
  cases call with
  | forget k => exact he
  | send w o =>
    unfold step
    dsimp only
    split
    · exact he
    · exact List.mem_cons_of_mem _ he

theorem published_of_signedBySender (hs : s.SignersVerified) {o : OpenedMessage}
    (hunshared : s.Unshared cfg (.send w o)) {rec : IdentityRecord}
    (hlookup : w.lookup o.plaintext.senderAddress = some rec)
    (hsigned : signedBySender cfg s.handler rec o.plaintext = true) :
    (o.plaintext.senderAddress, o.plaintext.senderPublicKey) ∈
      (s.step cfg (.send w o)).published := by
  by_cases hpub : rec.ed25519Public = o.plaintext.senderPublicKey
  · unfold step
    dsimp only
    rw [hlookup, ← hpub]
    exact List.mem_cons_self
  · unfold signedBySender at hsigned
    rw [if_neg hpub] at hsigned
    simp only [Bool.decide_and, decide_not, Bool.and_eq_true, Bool.not_eq_true',
      decide_eq_false_iff_not, decide_eq_true_eq] at hsigned
    obtain ⟨hne, hsigner⟩ := hsigned
    have hfor := hunshared rec hlookup hpub hsigner
    have hmem := hs (cfg.key o.plaintext) hne
    have hsigner' : s.handler.retrying.signer (cfg.key o.plaintext) = o.plaintext.senderPublicKey :=
      hsigner
    rw [hfor, hsigner'] at hmem
    exact published_step s _ _ hmem

theorem senderBound (hs : s.SignersVerified) {call : OutboundStep}
    (hunshared : s.Unshared cfg call) :
    s.SenderBound cfg call := by
  cases call with
  | forget k => trivial
  | send w o =>
    intro hdelivered
    obtain ⟨rec, hlookup, hsigned⟩ := signedBySender_of_send (.inr hdelivered)
    exact published_of_signedBySender hs hunshared hlookup hsigned

theorem signersVerified_step (hs : s.SignersVerified) {call : OutboundStep}
    (hunshared : s.Unshared cfg call) :
    (s.step cfg call).SignersVerified := by
  cases call with
  | forget k =>
    intro k' hne
    rcases Retrying.fades_forget s.handler.retrying k k' with heq | hnil
    · have hold : s.handler.retrying.signer k' ≠ [] := by
        rw [← heq]
        exact hne
      change (s.verifiedFor k', (s.handler.retrying.forget k).signer k') ∈ s.published
      rw [heq]
      exact hs k' hold
    · exact absurd hnil hne
  | send w o =>
    have hremembers := @remembers_send cfg o w s.handler
    -- a signer that was there before stands for the sender it stood for
    have hkept : ∀ k, s.handler.retrying.Fades (send cfg w s.handler o).handler.retrying k →
        (s.step cfg (.send w o)).verifiedFor k = s.verifiedFor k →
        (s.step cfg (.send w o)).handler.retrying.signer k ≠ [] →
        ((s.step cfg (.send w o)).verifiedFor k, (s.step cfg (.send w o)).handler.retrying.signer
          k) ∈
          (s.step cfg (.send w o)).published := by
      intro k hfades hfor hne
      rcases hfades with heq | hnil
      · have hsame : (s.step cfg (.send w o)).handler.retrying.signer k =
            s.handler.retrying.signer k := heq
        rw [hsame] at hne ⊢
        rw [hfor]
        exact published_step s _ _ (hs k hne)
      · exact absurd hnil hne
    intro k hne
    by_cases hk : k = cfg.key o.plaintext
    · subst hk
      have hown := hremembers.own
      split at hown
      · next hretry =>
        obtain ⟨rec, hlookup, hsigned⟩ := signedBySender_of_send (.inl hretry.2)
        have hfor : (s.step cfg (.send w o)).verifiedFor (cfg.key o.plaintext) =
            o.plaintext.senderAddress := by
          unfold step
          dsimp only
          rw [if_pos hretry, Function.update_self]
        have hsigner : (s.step cfg (.send w o)).handler.retrying.signer (cfg.key o.plaintext) =
            o.plaintext.senderPublicKey := hown
        rw [hfor, hsigner]
        exact published_of_signedBySender hs hunshared hlookup hsigned
      · next hretry =>
        apply hkept _ hown _ hne
        unfold step
        dsimp only
        rw [if_neg hretry]
    · apply hkept k (hremembers.other k hk) _ hne
      unfold step
      dsimp only
      split
      · rw [Function.update_of_ne hk]
      · rfl

end OutboundRun

/-- Over every run in which no message comes while the bridge remembers, under its ID and recipient,
a signer that was verified for another sender: whatever is sent under a name is signed by a key of
theirs. -/
theorem outbound_sender_bound (cfg : OutboundConfig) (limiter : RateLimiter)
    {calls : List OutboundStep} (h : Machine.Along (OutboundRun.step cfg) (OutboundRun.Unshared cfg)
      (.start limiter) calls) :
    Machine.Along (OutboundRun.step cfg) (OutboundRun.SenderBound cfg) (.start limiter) calls := by
  have hstart : (OutboundRun.start limiter).SignersVerified := fun k hne => absurd rfl hne
  have hverified := Machine.throughout_of_along hstart
    (fun s call hs hcall => OutboundRun.signersVerified_step hs hcall) h
  exact Machine.Along.mono hverified (fun s call hs hcall => OutboundRun.senderBound hs hcall) h

section Receipts

variable {cfg : OutboundConfig} {w : OutboundSurroundings} {h : OutboundHandler} {o : OpenedMessage}

def TakenForDuplicate (cfg : OutboundConfig) (w : OutboundSurroundings) (h : OutboundHandler)
    (o : OpenedMessage) : Prop :=
  cfg.bridgePriv.length = ed25519PrivateKeySize ∧
    (∃ rec, w.lookup o.plaintext.senderAddress = some rec ∧ signedBySender cfg h rec o.plaintext =
      true) ∧
    refusal cfg o.plaintext = none ∧ cfg.key o.plaintext ∈ h.seen

variable {r : BridgeDeliveryReceipt}

theorem makeReceipt_success {now : Time} {msgID : Fixed 16} {recipient : String}
    {deliverErr : Option DeliverError} (hr : makeReceipt cfg now msgID
      recipient deliverErr = some r) (hsuccess : r.success = true) :
    deliverErr = none ∧ cfg.bridgePriv.length = ed25519PrivateKeySize := by
  have hsign : ∀ success detail, signReceipt cfg now msgID recipient success detail = some r →
      success = true ∧ cfg.bridgePriv.length = ed25519PrivateKeySize := by
    intro success detail hsigned
    simp only [signReceipt, Option.bind_eq_bind, Option.bind_eq_some_iff] at hsigned
    obtain ⟨text, -, hsigned⟩ := hsigned
    split at hsigned
    · cases hsigned
    · next hlength =>
      cases hsigned
      exact ⟨hsuccess, not_not.mp hlength⟩
  unfold makeReceipt at hr
  cases deliverErr with
  | none => exact ⟨rfl, (hsign true [] hr).2⟩
  | some e =>
    have hfalse := (hsign false e.text hr).1
    cases hfalse

theorem makeReceipt_isSome (hpriv : cfg.bridgePriv.length = ed25519PrivateKeySize) (now : Time)
    (msgID : Fixed 16) (recipient : String) : ∃ r, makeReceipt cfg now msgID recipient none =
    some r ∧ r.success = true := by
  have hempty : readUtf8 [] = some "" := by
    have hutf8 := readUtf8_utf8 ""
    rwa [show utf8 "" = [] from rfl] at hutf8
  unfold makeReceipt signReceipt
  rw [hempty]
  simp [hpriv]

theorem conclude_success {pt : PlaintextMessage} {sender : IdentityRecord}
    {deliverErr : Option DeliverError}
    (hr : (conclude cfg w h pt sender deliverErr).2.receipt = some r) (hsuccess : r.success = true)
    : deliverErr = none ∧ cfg.bridgePriv.length =
    ed25519PrivateKeySize := by
  unfold conclude at hr
  split at hr
  · cases hr
  · next receipt hreceipt =>
    cases hr
    exact makeReceipt_success hreceipt hsuccess

theorem handToSMTP_success {sender : IdentityRecord}
    (hr : (handToSMTP cfg w h o sender).attempt.receipt = some r) (hsuccess : r.success = true) :
    (handToSMTP cfg w h o sender).delivered = some (o.plaintext, none) := by
  unfold handToSMTP at hr ⊢
  dsimp only at hr ⊢
  split at hr
  · rfl
  · next e he =>
    split at hr
    · cases hr
    · have hnone := (conclude_success hr hsuccess).1
      cases hnone

theorem send_success (hr : (send cfg w h o).attempt.receipt = some r)
    (hsuccess : r.success = true) :
    TakenForDuplicate cfg w h o ∨ (send cfg w h o).delivered = some (o.plaintext, none) := by
  unfold send at hr ⊢
  dsimp only at hr ⊢
  cases hlookup : w.lookup o.plaintext.senderAddress with
  | none =>
    rw [hlookup] at hr
    cases hr
  | some rec =>
    rw [hlookup] at hr
    dsimp only at hr ⊢
    split at hr
    · cases hr
    · next hsigned =>
      rw [if_neg hsigned]
      have hsender : signedBySender cfg h rec o.plaintext = true := by simpa using hsigned
      unfold sendVerified at hr ⊢
      dsimp only at hr ⊢
      cases hrefusal : refusal cfg o.plaintext with
      | some e =>
        rw [hrefusal] at hr
        cases hr
      | none =>
        rw [hrefusal] at hr
        dsimp only at hr ⊢
        split at hr
        · next hseen =>
          have hpriv := (conclude_success hr hsuccess).2
          exact .inl ⟨hpriv, ⟨rec, hlookup, hsender⟩, hrefusal, hseen⟩
        · next hseen =>
          right
          rw [if_neg hseen]
          unfold sendLimited at hr ⊢
          dsimp only at hr ⊢
          split at hr
          · next hpassed =>
            rw [if_pos hpassed]
            exact handToSMTP_success hr hsuccess
          · next hpassed =>
            rw [if_neg hpassed]
            split at hr
            · cases hr
            · next hallowed =>
              rw [if_neg hallowed]
              exact handToSMTP_success hr hsuccess

theorem refusal_eq_none {pt : PlaintextMessage} {bridgeDomain dmcnDomain : String}
    (hauthorized : cfg.domains.senderAuthorized cfg.rt.unicode pt.senderAddress = true)
    (hpair : (cfg.domains.profileSet cfg.rt.unicode).forDMCNDomain cfg.rt.unicode
      (domainOf cfg.rt.unicode pt.senderAddress) = (bridgeDomain, dmcnDomain))
    (hlegacy : isLegacyAddress cfg.rt.unicode pt.recipientAddress bridgeDomain dmcnDomain = true)
    (hsender : hasHeaderInjection (dmcnToSMTPFrom pt.senderAddress bridgeDomain) = false)
    (hrecipient : hasHeaderInjection pt.recipientAddress = false)
    (hsubject : hasHeaderInjection pt.subject = false) : refusal cfg pt = none := by
  unfold refusal
  dsimp only
  rw [hauthorized, hpair]
  dsimp only
  rw [hlegacy, hsender, hrecipient, hsubject]
  rfl

theorem send_of_admitted {rec : IdentityRecord}
    (hlookup : w.lookup o.plaintext.senderAddress = some rec)
    (hsigned : signedBySender cfg h rec o.plaintext = true)
    (hadmitted : refusal cfg o.plaintext = none) (hunseen : cfg.key o.plaintext ∉ h.seen) :
    send cfg w h o = sendLimited cfg w h o rec := by
  unfold send sendVerified
  dsimp only
  rw [hlookup]
  dsimp only
  rw [hsigned, if_neg Bool.noConfusion, hadmitted]
  exact if_neg hunseen

theorem send_of_duplicate (hdup : TakenForDuplicate cfg w h o) : (send cfg w h o).delivered = none ∧
    ∃ r, (send cfg w h o).attempt.receipt = some r ∧ r.success = true := by
  obtain ⟨hpriv, ⟨rec, hlookup, hsigned⟩, hrefusal, hseen⟩ := hdup
  obtain ⟨r, hr, hsuccess⟩ :=
    makeReceipt_isSome hpriv w.receiptAt o.plaintext.messageID o.plaintext.recipientAddress
  have hsend :
      send cfg w h o = ⟨h, ⟨some o.plaintext, some rec, some r, none, false⟩, none, []⟩ := by
    unfold send sendVerified conclude
    simp only [hlookup, hsigned, hrefusal, hseen, hr, if_pos, Bool.true_eq_false, if_false,
      Option.map_none]
  rw [hsend]
  exact ⟨rfl, r, rfl, hsuccess⟩

end Receipts

namespace OutboundRun

variable (cfg : OutboundConfig)

/-- A message that is reported as delivered is one that SMTP has accepted, now or earlier. -/
def ReceiptTruthful (s : OutboundRun) : OutboundStep → Prop
  | .send w o => ∀ r, (send cfg w s.handler o).attempt.receipt = some r → r.success = true →
    o.plaintext ∈ (s.step cfg (.send w o)).accepted
  | .forget _ => True

def DuplicateIsSame (s : OutboundRun) : OutboundStep → Prop
  | .send w o => TakenForDuplicate cfg w s.handler o → o.plaintext ∈ s.accepted
  | .forget _ => True

variable {cfg}

theorem receiptTruthful_iff (s : OutboundRun) (call : OutboundStep) :
    s.ReceiptTruthful cfg call ↔ s.DuplicateIsSame cfg call := by
  cases call with
  | forget k => exact Iff.rfl
  | send w o =>
    constructor
    · intro htruthful hdup
      obtain ⟨hnone, r, hr, hsuccess⟩ := send_of_duplicate hdup
      have hmem := htruthful r hr hsuccess
      unfold step at hmem
      dsimp only at hmem
      rwa [hnone] at hmem
    · intro hsame r hr hsuccess
      unfold step
      dsimp only
      rcases send_success hr hsuccess with hdup | hdelivered
      · have hmem := hsame hdup
        split
        · exact List.mem_cons_of_mem _ hmem
        · exact hmem
      · rw [hdelivered]
        exact List.mem_cons_self

end OutboundRun

/-- Over every run, from any state: the receipts of success are truthful exactly if no message is
taken for a duplicate of another that has its ID and recipient. -/
theorem success_receipts_truthful_iff (cfg : OutboundConfig) (s : OutboundRun)
    (calls : List OutboundStep) :
    Machine.Along (OutboundRun.step cfg) (OutboundRun.ReceiptTruthful cfg) s calls ↔
      Machine.Along (OutboundRun.step cfg) (OutboundRun.DuplicateIsSame cfg) s calls :=
  ⟨Machine.Along.imp fun s call => (OutboundRun.receiptTruthful_iff s call).mp,
    Machine.Along.imp fun s call => (OutboundRun.receiptTruthful_iff s call).mpr⟩

namespace SharedID

noncomputable def cfg : OutboundConfig where
  rt := idealRuntime [] []
  receiptCodec := someCodec _
  bridgePriv := List.replicate 64 0
  bridgeAddr := ""
  credential := none
  domains := ⟨"bridge.localhost", "dmcn.localhost", [], []⟩

def aliceKey : Bytes := List.replicate 32 1
def malloryKey : Bytes := List.replicate 32 2

def message (sender : String) (key : Bytes) (body : Bytes) : OpenedMessage where
  plaintext :=
    { version := 1, messageID := .zero 16, threadID := .zero 16, senderAddress := sender,
      senderPublicKey := key
      recipientAddress := "bob@example.com", sentAt := default, subject := "", body :=
        ⟨"text/plain", body⟩
      attachments := [], replyToID := .zero 16, alternatives := [], senderDisplay := "" }
  audience := ⟨[], []⟩

def lookup (address : String) : Option IdentityRecord :=
  if address = "alice@dmcn.localhost" then
    some (.ofMessage { (default : Pb.IdentityRecord) with ed25519PublicKey := aliceKey } [])
  else if address = "mallory@dmcn.localhost" then
    some (.ofMessage { (default : Pb.IdentityRecord) with ed25519PublicKey := malloryKey } [])
  else none

def w (deferred : Bool) : OutboundSurroundings :=
  ⟨lookup, Time.ofUnix 7, Time.ofUnix 7, fun _ _ _ _ => if deferred then some ⟨[], true⟩ else none⟩

def limiter : RateLimiter := ⟨100, Duration.hour, fun _ => []⟩

def own : OpenedMessage := message "mallory@dmcn.localhost" malloryKey []
def forged : OpenedMessage := message "alice@dmcn.localhost" malloryKey []
def genuine : OpenedMessage := message "alice@dmcn.localhost" aliceKey [1]

def rotated : OutboundSurroundings :=
  { w false with
    lookup := fun _ =>
      some (.ofMessage
        { (default : Pb.IdentityRecord) with ed25519PublicKey := List.replicate 32 3 } []) }

theorem refusal_message {sender : String}
    (hdomain : domainOf asciiUnicode sender = "dmcn.localhost")
    (hplain : hasHeaderInjection (dmcnToSMTPFrom sender "bridge.localhost") = false)
    (key body : Bytes) : refusal cfg (message sender key body).plaintext = none := by
  have hallowed : cfg.domains.allowedSenders asciiUnicode = ["dmcn.localhost"] := by decide
  have hpair : (cfg.domains.profileSet asciiUnicode).forDMCNDomain asciiUnicode "dmcn.localhost" =
      ("bridge.localhost", "dmcn.localhost") := by decide
  have hlegacy : isLegacyAddress asciiUnicode "bob@example.com" "bridge.localhost"
      "dmcn.localhost" = true := by decide
  have hrecipient : hasHeaderInjection "bob@example.com" = false := by decide
  have hauthorized : cfg.domains.senderAuthorized asciiUnicode sender = true := by
    unfold DomainConfig.senderAuthorized
    rw [hallowed, hdomain]
    decide
  have hsent := congrArg ((cfg.domains.profileSet asciiUnicode).forDMCNDomain asciiUnicode) hdomain
  exact refusal_eq_none hauthorized (hsent.trans hpair) hlegacy hplain hrecipient rfl

theorem refusal_mallory : refusal cfg own.plaintext = none :=
  refusal_message (by decide) (by decide) _ _

theorem refusal_alice (key body : Bytes) :
    refusal cfg (message "alice@dmcn.localhost" key body).plaintext = none :=
  refusal_message (by decide) (by decide) _ _

theorem send_own (deferred : Bool) :
    send cfg (w deferred) (OutboundRun.start limiter).handler own =
      sendLimited cfg (w deferred) (OutboundRun.start limiter).handler own
        (.ofMessage { (default : Pb.IdentityRecord) with ed25519PublicKey := malloryKey } []) :=
  send_of_admitted rfl (by decide) refusal_mallory (by decide)

theorem retried_message_bound :
    Machine.Along (OutboundRun.step cfg) (OutboundRun.SenderBound cfg) (.start limiter)
        [.send (w true) own, .send rotated own] ∧
      (send cfg rotated (OutboundRun.step cfg (.start limiter) (.send (w true) own)).handler
        own).delivered.isSome = true := by
  constructor
  · apply outbound_sender_bound
    refine ⟨fun rec hrec hne => ?_, fun rec _ _ _ => ?_, trivial⟩
    · cases hrec
      exact absurd rfl hne
    · refine OutboundRun.verifiedFor_step ?_
      rw [send_own]
      decide
  · have hsigned : signedBySender cfg
        (OutboundRun.step cfg (.start limiter) (.send (w true) own)).handler
        (.ofMessage
          { (default : Pb.IdentityRecord) with ed25519PublicKey := List.replicate 32 3 } [])
        own.plaintext = true := by
      rw [OutboundRun.handler_step, send_own]
      decide
    have hunseen : cfg.key own.plaintext ∉
        (OutboundRun.step cfg (.start limiter) (.send (w true) own)).handler.seen := by
      rw [OutboundRun.handler_step, send_own]
      decide
    rw [send_of_admitted rfl hsigned refusal_mallory hunseen, OutboundRun.handler_step, send_own]
    decide

/-- Mallory's message is deferred; the next one, with its ID and recipient and her key, goes out
under Alice's name. -/
theorem forged_under_another_name :
    (send cfg (w false) (OutboundRun.step cfg (.start limiter) (.send (w true) own)).handler
      forged).delivered.isSome = true ∧
      ("alice@dmcn.localhost", malloryKey) ∉ (Machine.run (OutboundRun.step cfg) (.start limiter)
        [.send (w true) own, .send (w false) forged]).published := by
  have hsigned : signedBySender cfg
      (OutboundRun.step cfg (.start limiter) (.send (w true) own)).handler
      (.ofMessage { (default : Pb.IdentityRecord) with ed25519PublicKey := aliceKey } [])
      forged.plaintext = true := by
    rw [OutboundRun.handler_step, send_own]
    decide
  have hunseen : cfg.key forged.plaintext ∉
      (OutboundRun.step cfg (.start limiter) (.send (w true) own)).handler.seen := by
    rw [OutboundRun.handler_step, send_own]
    decide
  constructor
  · rw [send_of_admitted rfl hsigned (refusal_alice _ _) hunseen, OutboundRun.handler_step,
      send_own]
    decide
  · decide

/-- Mallory's message is delivered; Alice's, with the same ID and recipient, is reported as
delivered and is not. -/
theorem reported_but_not_sent :
    (send cfg (w false) (OutboundRun.step cfg (.start limiter) (.send (w false) own)).handler
      genuine).delivered.isSome = false ∧
      (∃ r, (send cfg (w false)
        (OutboundRun.step cfg (.start limiter) (.send (w false) own)).handler
        genuine).attempt.receipt = some r ∧ r.success = true) ∧
      genuine.plaintext ∉ (Machine.run (OutboundRun.step cfg) (.start limiter)
        [.send (w false) own, .send (w false) genuine]).accepted := by
  have hdup : TakenForDuplicate cfg (w false)
      (OutboundRun.step cfg (.start limiter) (.send (w false) own)).handler
      genuine := by
    rw [OutboundRun.handler_step, send_own]
    exact ⟨by decide, ⟨_, rfl, by decide⟩, refusal_alice _ _, by decide⟩
  obtain ⟨hnone, hreported⟩ := send_of_duplicate hdup
  have hdelivered : (send cfg (w false) (OutboundRun.start limiter).handler own).delivered =
      some (own.plaintext, none) := by
    rw [send_own]
    rfl
  refine ⟨by rw [hnone]; rfl, hreported, ?_⟩
  show genuine.plaintext ∉ (OutboundRun.step cfg
    (OutboundRun.step cfg (.start limiter) (.send (w false) own))
      (.send (w false) genuine)).accepted
  rw [OutboundRun.accepted_step_none hnone, OutboundRun.accepted_step hdelivered]
  decide

end SharedID

end Dmcn.Bridge
