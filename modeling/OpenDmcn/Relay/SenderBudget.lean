import OpenDmcn.Relay.Quota
import OpenDmcn.Relay.ReadsFit

/-! The hourly budget of a sender (`ratelimit.go`) under STOREs that only claim to be from that
sender. An attempt is charged to the address it names before its signature is looked at, so that
what others send in a sender's name counts against the sender. -/

namespace Dmcn

open Go Datastore

namespace RateLimiter

section Window

variable (max : ℕ) (window : Duration)

def live (times : List Time) (now : Time) : List Time :=
  times.filter fun t => t.after (now.add (-window))

def Full (times : List Time) (now : Time) : Prop := max ≤ (live window times now).length

instance (times : List Time) (now : Time) : Decidable (Full max window times now) :=
  inferInstanceAs (Decidable (_ ≤ _))

def charge (times : List Time) (now : Time) : List Time :=
  if Full max window times now then live window times now else live window times now ++ [now]

end Window

theorem allow_eq (rl : RateLimiter) (now : Time) (sender : String) :
    rl.allow now sender =
      (⟨rl.maxPerHour, rl.window, Function.update rl.timestamps sender
          (charge rl.maxPerHour rl.window (rl.timestamps sender) now)⟩,
        !decide (Full rl.maxPerHour rl.window (rl.timestamps sender) now)) := by
  unfold allow charge
  by_cases hfull : Full rl.maxPerHour rl.window (rl.timestamps sender) now
  · have hlength : rl.maxPerHour ≤
        ((rl.timestamps sender).filter fun t => t.after (now.add (-rl.window))).length := hfull
    simp only [ge_iff_le, if_pos hlength, if_pos hfull, decide_eq_true hfull, Bool.not_true]
    rfl
  · have hlength : ¬ rl.maxPerHour ≤
        ((rl.timestamps sender).filter fun t => t.after (now.add (-rl.window))).length := hfull
    simp only [ge_iff_le, if_neg hlength, if_neg hfull, decide_eq_false hfull, Bool.not_false]
    rfl

end RateLimiter

section PastLimit

variable (cfg : RelayConfig)

def pastLimit (w : Surroundings) (stores : Stores) (onionRequired : String → Bool)
    (onionRelay : Bool) (senderAddr : String) (senderSig : Bytes) (env : EncryptedEnvelope)
    (hash : Fixed 32) :
    Stores × Except StoreRefusal (Fixed 32) :=
  match senderGate cfg w onionRequired onionRelay senderAddr senderSig env hash with
  | .error e => (stores, .error e)
  | .ok rec =>
    let (stores', answer) := storeLoop cfg w senderAddr rec env hash 0 env.recipients stores
    (stores', answer.map fun _ => hash)

variable {cfg} {w : Surroundings} {onionRelay : Bool} {senderAddr : String} {senderSig : Bytes}
  {env : EncryptedEnvelope} {hash : Fixed 32}

theorem acceptEnvelope_draining (hdraining : w.draining = true) (s : RelayState) :
    acceptEnvelope cfg w s onionRelay senderAddr senderSig env hash =
      (s, .error .nodeDraining) := by
  unfold acceptEnvelope
  rw [if_pos hdraining]

theorem acceptEnvelope_eq (hdraining : w.draining = false) (s : RelayState) :
    acceptEnvelope cfg w s onionRelay senderAddr senderSig env hash =
      if RateLimiter.Full s.limiter.maxPerHour s.limiter.window (s.limiter.timestamps senderAddr)
      w.now then
        ({ s with limiter := (s.limiter.allow w.now senderAddr).1 }, .error .rateLimited)
      else
        ({ s with
            limiter := (s.limiter.allow w.now senderAddr).1
            stores := (pastLimit cfg w s.stores s.onionRequired onionRelay senderAddr senderSig env
              hash).1 },
          (pastLimit cfg w s.stores s.onionRequired onionRelay senderAddr senderSig env
            hash).2) := by
  have hallow : (s.limiter.allow w.now senderAddr).2 =
      !decide (RateLimiter.Full s.limiter.maxPerHour s.limiter.window
        (s.limiter.timestamps senderAddr) w.now) := by
    rw [RateLimiter.allow_eq]
  unfold acceptEnvelope
  rw [if_neg (by simp [hdraining])]
  dsimp only
  rw [hallow]
  split
  · next hlimited => rw [if_pos (by simpa using hlimited)]
  · next hlimited =>
    rw [if_neg (by simpa using hlimited)]
    unfold pastLimit
    dsimp only
    cases senderGate cfg w s.onionRequired onionRelay senderAddr senderSig env hash with
    | error e => rfl
    | ok rec => rfl

theorem senderGate_ne_rateLimited {onionRequired : String → Bool} :
    senderGate cfg w onionRequired onionRelay senderAddr senderSig env hash ≠
      .error .rateLimited := by
  unfold senderGate
  intro h
  split at h
  · cases h
  · split at h
    · cases h
    · cases h
    · split at h
      · cases h
      · split at h
        · cases h
        · split at h
          · cases h
          · cases h

theorem storeOne_ne_rateLimited {i : ℕ} {addr : String} {s : Stores} :
    storeOne cfg w env hash i addr s ≠ .error .rateLimited := by
  unfold storeOne quotaGate
  intro h
  split at h
  · split at h
    · next e hgate =>
      cases h
      split at hgate
      · split at hgate
        · cases hgate
        · split at hgate
          · cases hgate
          · cases hgate
      · cases hgate
    · split at h
      · cases h
      · split at h
        · cases h
        · cases h
  · cases h

theorem storeLoop_ne_rateLimited {rec : IdentityRecord} {rs : List RecipientRecord} {i : ℕ}
    {s : Stores} :
    (storeLoop cfg w senderAddr rec env hash i rs s).2 ≠ .error .rateLimited := by
  induction rs generalizing i s with
  | nil => exact fun h => nomatch h
  | cons r rs ih =>
    rw [storeLoop]
    split
    · exact ih
    · split
      · next e hone =>
        intro h
        have he : e = .rateLimited := Except.error.inj h
        rw [he] at hone
        exact storeOne_ne_rateLimited hone
      · exact ih

theorem pastLimit_ne_rateLimited {stores : Stores} {onionRequired : String → Bool} :
    (pastLimit cfg w stores onionRequired onionRelay senderAddr senderSig env hash).2 ≠
      .error .rateLimited := by
  unfold pastLimit
  split
  · next e hgate =>
    intro h
    have he : e = .rateLimited := Except.error.inj h
    rw [he] at hgate
    exact senderGate_ne_rateLimited hgate
  · next rec hgate =>
    dsimp only
    intro h
    cases hloop : (storeLoop cfg w senderAddr rec env hash 0 env.recipients stores).2 with
    | ok u =>
      rw [hloop] at h
      cases h
    | error e =>
      rw [hloop] at h
      have he : e = .rateLimited := Except.error.inj h
      rw [he] at hloop
      exact storeLoop_ne_rateLimited hloop

theorem pastLimit_forged {key : Bytes} {onionRequired : String → Bool} {stores : Stores}
    (hkey : ∀ rec, w.resolve senderAddr = .ok rec → rec.ed25519Public = key)
    (hforged : Crypto.verify cfg.rt key hash.val senderSig = false) :
    (pastLimit cfg w stores onionRequired onionRelay senderAddr senderSig env hash).1 = stores := by
  unfold pastLimit
  split
  · rfl
  · next rec hgate =>
    obtain ⟨hresolve, hverify⟩ := sender_of_senderGate hgate
    rw [hkey rec hresolve, hforged] at hverify
    cases hverify

end PastLimit

/-- A request to the relay. What is not a STORE is given by what it does to the mail and to the
mailboxes seen to demand onion delivery: it neither reads nor charges the limiter. -/
inductive SenderCall where
  | store (w : Surroundings) (onionRelay : Bool) (senderAddr : String) (senderSig : Bytes)
    (env : EncryptedEnvelope)
      (hash : Fixed 32)
  | other (effect : Stores × (String → Bool) → Stores × (String → Bool))

section Runs

variable (cfg : RelayConfig)

def RelayState.serve (s : RelayState) : SenderCall → RelayState
  | .store w onionRelay senderAddr senderSig env hash =>
    (acceptEnvelope cfg w s onionRelay senderAddr senderSig env hash).1
  | .other effect =>
    { s with
      stores := (effect (s.stores, s.onionRequired)).1
      onionRequired := (effect (s.stores, s.onionRequired)).2 }

theorem account_eq_serve (call : AccountCall) :
    ∃ call' : SenderCall, ∀ s : RelayState, s.account cfg call = s.serve cfg call' := by
  cases call with
  | accept w onionRelay senderAddr senderSig env hash =>
    exact ⟨.store w onionRelay senderAddr senderSig env hash, fun s => rfl⟩
  | kvPut rx key sealed expectedVersion =>
    refine ⟨.other fun p =>
      ((kvPut cfg p.1.disk (Hex.encode rx.val) key sealed expectedVersion).toOption.elim p.1
      fun result => { p.1 with disk := result.1 }, p.2), fun s => ?_⟩
    unfold RelayState.account RelayState.serve
    dsimp only
    cases kvPut cfg s.stores.disk (Hex.encode rx.val) key sealed expectedVersion with
    | error e => rfl
    | ok result => rfl
  | mailboxDelete rx hash =>
    exact ⟨.other fun p =>
      ({ p.1 with disk := Mailbox.delete p.1.disk (Hex.encode rx.val) hash }, p.2), fun s => rfl⟩
  | kvDelete rx key =>
    refine ⟨.other fun p => ((kvDelete cfg p.1.disk (Hex.encode rx.val) key).toOption.elim p.1
      fun disk => { p.1 with disk := disk }, p.2), fun s => ?_⟩
    unfold RelayState.account RelayState.serve
    dsimp only
    cases kvDelete cfg s.stores.disk (Hex.encode rx.val) key with
    | error e => rfl
    | ok disk => rfl

variable (sender : String) (key : Surroundings → Bytes)

def SenderCall.signedBy : SenderCall → Option Bool
  | .store w _ senderAddr senderSig _ hash =>
    if senderAddr = sender then some (Crypto.verify cfg.rt (key w) hash.val senderSig) else none
  | .other _ => none

def withoutForged (calls : List SenderCall) : List SenderCall :=
  calls.filter fun call => decide (call.signedBy cfg sender key ≠ some false)

def RelayState.answer (s : RelayState) : SenderCall → Option (Except StoreRefusal (Fixed 32))
  | .store w onionRelay senderAddr senderSig env hash =>
    if SenderCall.signedBy cfg sender key (.store w onionRelay senderAddr senderSig env hash) =
        some true then
      some (acceptEnvelope cfg w s onionRelay senderAddr senderSig env hash).2
    else none
  | .other _ => none

def answers (s : RelayState) : List SenderCall → List (Except StoreRefusal (Fixed 32))
  | [] => []
  | call :: calls => (s.answer cfg sender key call).toList ++ answers (s.serve cfg call) calls

/-- The attempts that name the sender and reach the limiter: when, and whether they verify. -/
def SenderCall.attempt : SenderCall → Option (Time × Bool)
  | .store w onionRelay senderAddr senderSig env hash =>
    if w.draining then none
    else (SenderCall.signedBy cfg sender key
      (.store w onionRelay senderAddr senderSig env hash)).map fun b => (w.now, b)
  | .other _ => none

structure Charges where
  all : List Time
  own : List Time

def Charges.attempt (max : ℕ) (window : Duration) (c : Charges) (a : Time × Bool) : Charges where
  all := RateLimiter.charge max window c.all a.1
  own := if a.2 then RateLimiter.charge max window c.own a.1 else c.own

/-- An attempt of the sender's finds the budget used up exactly if the sender's own attempts use it
up. -/
def Charges.Own (max : ℕ) (window : Duration) (c : Charges) (a : Time × Bool) : Prop :=
  a.2 = true → (RateLimiter.Full max window c.all a.1 ↔ RateLimiter.Full max window c.own a.1)

/-- Nothing that others send in the sender's name tips the budget at an attempt of the sender's. -/
def BudgetOwn (s : RelayState) (calls : List SenderCall) : Prop :=
  Machine.Along (Charges.attempt s.limiter.maxPerHour s.limiter.window)
    (Charges.Own s.limiter.maxPerHour s.limiter.window)
    ⟨s.limiter.timestamps sender, s.limiter.timestamps sender⟩
      (calls.filterMap (SenderCall.attempt cfg sender key))

end Runs

structure Alike (sender : String) (s s' : RelayState) : Prop where
  stores : s.stores = s'.stores
  onionRequired : s.onionRequired = s'.onionRequired
  max : s.limiter.maxPerHour = s'.limiter.maxPerHour
  window : s.limiter.window = s'.limiter.window
  others : ∀ other, other ≠ sender → s.limiter.timestamps other = s'.limiter.timestamps other

theorem Alike.symm {sender : String} {s s' : RelayState} (h : Alike sender s s') :
    Alike sender s' s where
  stores := h.stores.symm
  onionRequired := h.onionRequired.symm
  max := h.max.symm
  window := h.window.symm
  others other hother := (h.others other hother).symm

section Unwinding

variable {cfg : RelayConfig} {sender : String} {key : Surroundings → Bytes} {s s' : RelayState}
  {w : Surroundings}
  {onionRelay : Bool} {senderAddr : String} {senderSig : Bytes} {env : EncryptedEnvelope}
    {hash : Fixed 32}

theorem timestamps_allow (rl : RateLimiter) (now : Time) (other : String) :
    (rl.allow now senderAddr).1.timestamps other =
      if other = senderAddr then RateLimiter.charge rl.maxPerHour rl.window (rl.timestamps other)
      now
      else rl.timestamps other := by
  rw [RateLimiter.allow_eq]
  by_cases heq : other = senderAddr
  · subst heq
    rw [if_pos rfl]
    exact Function.update_self ..
  · rw [if_neg heq]
    exact Function.update_of_ne heq ..

theorem limits_allow (rl : RateLimiter) (now : Time) :
    (rl.allow now senderAddr).1.maxPerHour = rl.maxPerHour ∧ (rl.allow now senderAddr).1.window =
      rl.window := by
  rw [RateLimiter.allow_eq]
  exact ⟨rfl, rfl⟩

theorem limiter_acceptEnvelope (s : RelayState) :
    (acceptEnvelope cfg w s onionRelay senderAddr senderSig env hash).1.limiter =
      if w.draining then s.limiter else (s.limiter.allow w.now senderAddr).1 := by
  cases hdraining : w.draining with
  | true => rw [acceptEnvelope_draining hdraining, if_pos rfl]
  | false =>
    rw [acceptEnvelope_eq hdraining, if_neg Bool.false_ne_true]
    split
    · rfl
    · rfl

theorem timestamps_acceptEnvelope (s : RelayState) (other : String) :
    (acceptEnvelope cfg w s onionRelay senderAddr senderSig env hash).1.limiter.timestamps other =
      if w.draining = false ∧ other = senderAddr then
        RateLimiter.charge s.limiter.maxPerHour s.limiter.window (s.limiter.timestamps other) w.now
      else s.limiter.timestamps other := by
  rw [limiter_acceptEnvelope]
  cases w.draining with
  | true => simp
  | false => simp [timestamps_allow]

theorem limits_acceptEnvelope (s : RelayState) :
    (acceptEnvelope cfg w s onionRelay senderAddr senderSig env hash).1.limiter.maxPerHour =
      s.limiter.maxPerHour ∧
      (acceptEnvelope cfg w s onionRelay senderAddr senderSig env hash).1.limiter.window =
      s.limiter.window := by
  rw [limiter_acceptEnvelope]
  split
  · exact ⟨rfl, rfl⟩
  · exact limits_allow s.limiter w.now

theorem onionRequired_acceptEnvelope (s : RelayState) :
    (acceptEnvelope cfg w s onionRelay senderAddr senderSig env hash).1.onionRequired =
      s.onionRequired := by
  cases hdraining : w.draining with
  | true => rw [acceptEnvelope_draining hdraining]
  | false =>
    rw [acceptEnvelope_eq hdraining]
    split
    · rfl
    · rfl

theorem Alike.accept (h : Alike sender s s') (hverdict : w.draining = false →
      (RateLimiter.Full s.limiter.maxPerHour s.limiter.window (s.limiter.timestamps senderAddr)
        w.now ↔
        RateLimiter.Full s'.limiter.maxPerHour s'.limiter.window (s'.limiter.timestamps senderAddr)
          w.now)) :
    Alike sender (acceptEnvelope cfg w s onionRelay senderAddr senderSig env hash).1
        (acceptEnvelope cfg w s' onionRelay senderAddr senderSig env hash).1 ∧
      (acceptEnvelope cfg w s onionRelay senderAddr senderSig env hash).2 =
        (acceptEnvelope cfg w s' onionRelay senderAddr senderSig env hash).2 := by
  have hothers : ∀ other, other ≠ sender →
      (acceptEnvelope cfg w s onionRelay senderAddr senderSig env hash).1.limiter.timestamps other =
        (acceptEnvelope cfg w s' onionRelay senderAddr senderSig env hash).1.limiter.timestamps
          other := by
    intro other hother
    rw [timestamps_acceptEnvelope, timestamps_acceptEnvelope, h.max, h.window,
      h.others other hother]
  have hlimits : ∀ t : RelayState,
      (acceptEnvelope cfg w t onionRelay senderAddr senderSig env hash).1.limiter.maxPerHour =
        t.limiter.maxPerHour ∧
        (acceptEnvelope cfg w t onionRelay senderAddr senderSig env hash).1.limiter.window =
          t.limiter.window :=
    limits_acceptEnvelope
  have hsame : (acceptEnvelope cfg w s onionRelay senderAddr senderSig env hash).1.stores =
        (acceptEnvelope cfg w s' onionRelay senderAddr senderSig env hash).1.stores ∧
      (acceptEnvelope cfg w s onionRelay senderAddr senderSig env hash).2 =
        (acceptEnvelope cfg w s' onionRelay senderAddr senderSig env hash).2 := by
    cases hdraining : w.draining with
    | true =>
      rw [acceptEnvelope_draining hdraining, acceptEnvelope_draining hdraining]
      exact ⟨h.stores, rfl⟩
    | false =>
      rw [acceptEnvelope_eq hdraining, acceptEnvelope_eq hdraining]
      by_cases hfull : RateLimiter.Full s.limiter.maxPerHour s.limiter.window
        (s.limiter.timestamps senderAddr) w.now
      · rw [if_pos hfull, if_pos ((hverdict hdraining).mp hfull)]
        exact ⟨h.stores, rfl⟩
      · rw [if_neg hfull, if_neg (mt (hverdict hdraining).mpr hfull), h.stores, h.onionRequired]
        exact ⟨rfl, rfl⟩
  refine ⟨⟨hsame.1, ?_, ?_, ?_, hothers⟩, hsame.2⟩
  · rw [onionRequired_acceptEnvelope, onionRequired_acceptEnvelope, h.onionRequired]
  · rw [(hlimits s).1, (hlimits s').1, h.max]
  · rw [(hlimits s).2, (hlimits s').2, h.window]

theorem Alike.forged (h : Alike sender s s')
    (hkey : ∀ rec, w.resolve sender = .ok rec → rec.ed25519Public = key w)
    (hforged : Crypto.verify cfg.rt (key w) hash.val senderSig = false) :
    Alike sender (acceptEnvelope cfg w s onionRelay sender senderSig env hash).1 s' where
  stores := by
    cases hdraining : w.draining with
    | true =>
      rw [acceptEnvelope_draining hdraining]
      exact h.stores
    | false =>
      rw [acceptEnvelope_eq hdraining]
      split
      · exact h.stores
      · exact (pastLimit_forged hkey hforged).trans h.stores
  onionRequired := by
    rw [onionRequired_acceptEnvelope]
    exact h.onionRequired
  max := by
    rw [(limits_acceptEnvelope s).1]
    exact h.max
  window := by
    rw [(limits_acceptEnvelope s).2]
    exact h.window
  others := by
    intro other hother
    rw [timestamps_acceptEnvelope, if_neg (fun hcharged => hother hcharged.2)]
    exact h.others other hother

theorem rateLimited_iff (hdraining : w.draining = false) :
    (acceptEnvelope cfg w s onionRelay senderAddr senderSig env hash).2 = .error .rateLimited ↔
      RateLimiter.Full s.limiter.maxPerHour s.limiter.window (s.limiter.timestamps senderAddr)
      w.now := by
  rw [acceptEnvelope_eq hdraining]
  split
  · next hfull => exact ⟨fun _ => hfull, fun _ => rfl⟩
  · next hfull => exact ⟨fun h => absurd h pastLimit_ne_rateLimited, fun h => absurd h hfull⟩

theorem Alike.serve_others (h : Alike sender s s') {call : SenderCall}
    (hnone : call.signedBy cfg sender key = none) :
    Alike sender (s.serve cfg call) (s'.serve cfg call) ∧
      (s.serve cfg call).limiter.timestamps sender = s.limiter.timestamps sender := by
  cases call with
  | other effect =>
    refine ⟨⟨?_, ?_, h.max, h.window, h.others⟩, rfl⟩
    · simp only [RelayState.serve, h.stores, h.onionRequired]
    · simp only [RelayState.serve, h.stores, h.onionRequired]
  | store w onionRelay senderAddr senderSig env hash =>
    have hother : senderAddr ≠ sender := by
      rintro rfl
      simp [SenderCall.signedBy] at hnone
    have hverdict : w.draining = false →
        (RateLimiter.Full s.limiter.maxPerHour s.limiter.window (s.limiter.timestamps senderAddr)
          w.now ↔
          RateLimiter.Full s'.limiter.maxPerHour s'.limiter.window
            (s'.limiter.timestamps senderAddr) w.now) := by
      intro _
      rw [h.max, h.window, h.others senderAddr hother]
    refine ⟨(h.accept hverdict).1, ?_⟩
    unfold RelayState.serve
    dsimp only
    rw [timestamps_acceptEnvelope, if_neg (fun hcharged => hother hcharged.2.symm)]

theorem limits_serve (s : RelayState) (call : SenderCall) :
    (s.serve cfg call).limiter.maxPerHour = s.limiter.maxPerHour ∧
      (s.serve cfg call).limiter.window = s.limiter.window := by
  cases call with
  | other effect => exact ⟨rfl, rfl⟩
  | store w onionRelay senderAddr senderSig env hash => exact limits_acceptEnvelope s

theorem signedBy_eq_some {call : SenderCall} {verifies : Bool}
    (h : call.signedBy cfg sender key = some verifies) :
    ∃ w onionRelay senderSig env hash, call = .store w onionRelay sender senderSig env hash ∧
      Crypto.verify cfg.rt (key w) hash.val senderSig = verifies := by
  cases call with
  | other effect => cases h
  | store w onionRelay senderAddr senderSig env hash =>
    unfold SenderCall.signedBy at h
    dsimp only at h
    split at h
    · next hnames =>
      subst hnames
      exact ⟨w, onionRelay, senderSig, env, hash, rfl, Option.some.inj h⟩
    · cases h

theorem answer_of_ne {call : SenderCall} (h : call.signedBy cfg sender key ≠ some true)
    (s : RelayState) :
    s.answer cfg sender key call = none := by
  cases call with
  | other effect => rfl
  | store w onionRelay senderAddr senderSig env hash => exact if_neg h

theorem answer_of_own (h : (SenderCall.store w onionRelay senderAddr senderSig env hash).signedBy
    cfg sender key = some true)
    (s : RelayState) : s.answer cfg sender key (.store w onionRelay senderAddr senderSig env hash) =
      some (acceptEnvelope cfg w s onionRelay senderAddr senderSig env hash).2 := if_pos h

theorem attempt_of_none {call : SenderCall} (h : call.signedBy cfg sender key = none) :
    call.attempt cfg sender key = none := by
  cases call with
  | other effect => rfl
  | store w onionRelay senderAddr senderSig env hash =>
    unfold SenderCall.attempt
    dsimp only
    rw [h, Option.map_none, ite_self]

theorem withoutForged_cons (call : SenderCall) (calls : List SenderCall) :
    withoutForged cfg sender key (call :: calls) =
      if call.signedBy cfg sender key = some false then withoutForged cfg sender key calls
      else call :: withoutForged cfg sender key calls := by
  unfold withoutForged
  rw [List.filter_cons]
  by_cases h : call.signedBy cfg sender key = some false
  · simp [h]
  · simp [h]

theorem attempt_of_some {verifies : Bool}
    (h : (SenderCall.store w onionRelay sender senderSig env hash).signedBy cfg sender key =
      some verifies) :
    (SenderCall.store w onionRelay sender senderSig env hash).attempt cfg sender key =
      if w.draining then none else some (w.now, verifies) := by
  unfold SenderCall.attempt
  dsimp only
  rw [h, Option.map_some]

theorem timestamps_serve (s : RelayState) :
    (s.serve cfg (.store w onionRelay sender senderSig env hash)).limiter.timestamps sender =
      if w.draining then s.limiter.timestamps sender
      else RateLimiter.charge s.limiter.maxPerHour s.limiter.window (s.limiter.timestamps sender)
      w.now := by
  unfold RelayState.serve
  dsimp only
  rw [timestamps_acceptEnvelope]
  cases w.draining with
  | true => simp
  | false => simp

theorem answers_eq_iff (hkey : ∀ w rec, w.resolve sender = .ok rec → rec.ed25519Public = key w)
    (h : Alike sender s s') (calls : List SenderCall) :
    answers cfg sender key s calls =
      answers cfg sender key s' (withoutForged cfg sender key calls) ↔
      Machine.Along (Charges.attempt s.limiter.maxPerHour s.limiter.window)
        (Charges.Own s.limiter.maxPerHour s.limiter.window)
        ⟨s.limiter.timestamps sender, s'.limiter.timestamps sender⟩
        (calls.filterMap (SenderCall.attempt cfg sender key)) := by
  induction calls generalizing s s' with
  | nil => simp [withoutForged, answers, Machine.Along]
  | cons call calls ih =>
    obtain ⟨hmax, hwindow⟩ := @limits_serve cfg s call
    rw [withoutForged_cons]
    cases hsigned : call.signedBy cfg sender key with
    | none =>
      obtain ⟨hnext, htimes⟩ := h.serve_others hsigned
      have htimes' := (h.symm.serve_others hsigned).2
      have hrest := ih hnext
      rw [hmax, hwindow, htimes, htimes'] at hrest
      rw [if_neg (by simp), List.filterMap_cons_none (attempt_of_none hsigned), answers, answers,
        answer_of_ne (by simp [hsigned]), answer_of_ne (by simp [hsigned])]
      exact hrest
    | some verifies =>
      obtain ⟨w, onionRelay, senderSig, env, hash, rfl, hverify⟩ := signedBy_eq_some hsigned
      have hattempt := attempt_of_some hsigned
      cases verifies with
      | false =>
        -- the run goes on with the charge, the run without it stays where it is
        have hnext : Alike sender (s.serve cfg (.store w onionRelay sender senderSig env hash))
            s' :=
          h.forged (hkey w) hverify
        have hrest := ih hnext
        rw [hmax, hwindow, timestamps_serve] at hrest
        rw [if_pos rfl, answers, answer_of_ne (by simp [hsigned])]
        cases hdraining : w.draining with
        | true =>
          rw [hdraining, if_pos rfl] at hattempt hrest
          rw [List.filterMap_cons_none hattempt]
          exact hrest
        | false =>
          rw [hdraining, if_neg Bool.false_ne_true] at hattempt hrest
          rw [List.filterMap_cons_some hattempt]
          have hown : Charges.Own s.limiter.maxPerHour s.limiter.window
              ⟨s.limiter.timestamps sender, s'.limiter.timestamps sender⟩ (w.now, false) :=
            fun hverifies => absurd hverifies Bool.false_ne_true
          exact hrest.trans (Machine.along_cons hown).symm
      | true =>
        rw [if_neg (by simp), answers, answers, answer_of_own hsigned, answer_of_own hsigned,
          Option.toList_some, Option.toList_some, List.singleton_append, List.singleton_append,
            List.cons_eq_cons]
        by_cases hverdict : w.draining = false →
            (RateLimiter.Full s.limiter.maxPerHour s.limiter.window (s.limiter.timestamps sender)
              w.now ↔
              RateLimiter.Full s'.limiter.maxPerHour s'.limiter.window
                (s'.limiter.timestamps sender) w.now)
        · obtain ⟨hnext, hsame⟩ :=
            @Alike.accept cfg sender s s' w onionRelay sender senderSig env hash h hverdict
          have hrest := @ih (s.serve cfg (.store w onionRelay sender senderSig env hash))
            (s'.serve cfg (.store w onionRelay sender senderSig env hash)) hnext
          rw [hmax, hwindow, timestamps_serve, timestamps_serve, ← h.max, ← h.window] at hrest
          rw [and_iff_right hsame]
          cases hdraining : w.draining with
          | true =>
            rw [hdraining, if_pos rfl] at hattempt
            rw [hdraining, if_pos rfl, if_pos rfl] at hrest
            rw [List.filterMap_cons_none hattempt]
            exact hrest
          | false =>
            rw [hdraining, if_neg Bool.false_ne_true] at hattempt
            rw [hdraining, if_neg Bool.false_ne_true, if_neg Bool.false_ne_true] at hrest
            rw [List.filterMap_cons_some hattempt]
            have hown : Charges.Own s.limiter.maxPerHour s.limiter.window
                ⟨s.limiter.timestamps sender, s'.limiter.timestamps sender⟩ (w.now, true) := by
              intro _
              rw [h.max, h.window] at hverdict ⊢
              exact hverdict hdraining
            exact hrest.trans (Machine.along_cons hown).symm
        · -- the limiter refuses in one run only, and nothing else answers so
          obtain ⟨hdraining, hverdict⟩ := Classical.not_imp.mp hverdict
          have hdiffer : (acceptEnvelope cfg w s onionRelay sender senderSig env hash).2 ≠
              (acceptEnvelope cfg w s' onionRelay sender senderSig env hash).2 := by
            intro hsame
            apply hverdict
            rw [← rateLimited_iff hdraining, ← rateLimited_iff hdraining, hsame]
          rw [hdraining, if_neg Bool.false_ne_true] at hattempt
          rw [List.filterMap_cons_some hattempt]
          refine iff_of_false (fun hboth => hdiffer hboth.1) ?_
          rintro ⟨hown, -⟩
          apply hverdict
          rw [← h.max, ← h.window]
          exact hown rfl

theorem Alike.refl (s : RelayState) : Alike sender s s := ⟨rfl, rfl, rfl, rfl, fun _ _ => rfl⟩

/-- What others send in a sender's name leaves the answers to the sender's own STOREs as they are
exactly if it never tips the budget; two runs that differ only in that, and where it does not, give
the same answers. -/
theorem own_answers_iff (cfg : RelayConfig) {sender : String} {key : Surroundings → Bytes}
    (hkey : ∀ w rec, w.resolve sender = .ok rec → rec.ed25519Public = key w) (s : RelayState)
    {calls calls' : List SenderCall}
    (hsame : withoutForged cfg sender key calls = withoutForged cfg sender key calls') :
    (answers cfg sender key s calls =
      answers cfg sender key s (withoutForged cfg sender key calls) ↔
      BudgetOwn cfg sender key s calls) ∧
    (BudgetOwn cfg sender key s calls → BudgetOwn cfg sender key s calls' →
      answers cfg sender key s calls = answers cfg sender key s calls') := by
  have hexact : ∀ calls, answers cfg sender key s calls =
      answers cfg sender key s (withoutForged cfg sender key calls) ↔
        BudgetOwn cfg sender key s calls :=
    answers_eq_iff hkey (Alike.refl s)
  refine ⟨hexact calls, fun hown hown' => ?_⟩
  calc answers cfg sender key s calls
      = answers cfg sender key s (withoutForged cfg sender key calls) := (hexact calls).mpr hown
    _ = answers cfg sender key s (withoutForged cfg sender key calls') := by rw [hsame]
    _ = answers cfg sender key s calls' := ((hexact calls').mpr hown').symm

end Unwinding

namespace Impersonated

open Oversized

noncomputable def hash : Fixed 32 := envelopeHash cfg₀ (envelope [1, 2, 3]).toProto

def key (w : Surroundings) : Bytes :=
  match w.resolve "a@b" with
  | .ok rec => rec.ed25519Public
  | .error _ => keyOf 1

theorem key_of_resolve {w : Surroundings} {rec : IdentityRecord} (h : w.resolve "a@b" = .ok rec) :
    rec.ed25519Public = key w := by
  unfold key
  rw [h]

noncomputable def own : SenderCall := .store w₀ false "a@b" signature (envelope [1, 2, 3]) hash

noncomputable def forged : SenderCall := .store w₀ false "a@b" [] (envelope [1, 2, 3]) hash

theorem signedBy_own : own.signedBy cfg₀ "a@b" key = some true := by
  have hkey : key w₀ = keyOf 1 := rfl
  simp [own, SenderCall.signedBy, hkey, signature, Crypto.verify, Crypto.ed25519PublicKeySize,
    Crypto.ed25519SignatureSize, cfg₀, Dmcn.idealRuntime, Ideal.tableVerify]

theorem signedBy_forged : forged.signedBy cfg₀ "a@b" key = some false := by
  simp [forged, SenderCall.signedBy, Crypto.verify, Crypto.ed25519SignatureSize]

theorem withoutForged_run (n : ℕ) :
    withoutForged cfg₀ "a@b" key (List.replicate n forged ++ [own]) = [own] := by
  unfold withoutForged
  rw [List.filter_append, List.filter_replicate, signedBy_forged, List.filter_singleton,
    signedBy_own]
  rfl

theorem answers_own : answers cfg₀ "a@b" key s₀ [own] = [.ok hash] := by
  have haccept := acceptEnvelope_of_gate rfl allow_s₀ (senderGate_envelope [1, 2, 3] hash)
  rw [storeLoop_envelope (by simp)] at haccept
  have hanswer : s₀.answer cfg₀ "a@b" key own = some (.ok hash) := by
    rw [own, answer_of_own signedBy_own, haccept]
    rfl
  rw [answers, hanswer]
  rfl

noncomputable def after (n : ℕ) : RelayState :=
  Machine.run (RelayState.serve cfg₀) s₀ (List.replicate n forged)

theorem after_succ (n : ℕ) : after (n + 1) = (after n).serve cfg₀ forged := by
  unfold after
  rw [List.replicate_succ', Machine.run_append]
  rfl

theorem limiter_after {n : ℕ} (hn : n ≤ 100) : (after n).limiter.maxPerHour = 100 ∧
    (after n).limiter.window = Duration.hour ∧ (after n).limiter.timestamps "a@b" =
      List.replicate n w₀.now := by
  induction n with
  | zero => exact ⟨rfl, rfl, rfl⟩
  | succ n ih =>
    obtain ⟨hmax, hwindow, htimes⟩ := ih (by omega)
    have hlive : RateLimiter.live Duration.hour (List.replicate n w₀.now) w₀.now =
        List.replicate n w₀.now := by
      unfold RateLimiter.live
      rw [List.filter_replicate, if_pos (by decide)]
    have hroom : ¬ RateLimiter.Full 100 Duration.hour (List.replicate n w₀.now) w₀.now := by
      unfold RateLimiter.Full
      rw [hlive, List.length_replicate]
      omega
    have hcharged : ((after n).serve cfg₀ forged).limiter.timestamps "a@b" =
        List.replicate (n + 1) w₀.now := by
      unfold forged
      rw [timestamps_serve, if_neg (show ¬ w₀.draining = true from Bool.false_ne_true), hmax,
        hwindow, htimes, RateLimiter.charge, if_neg hroom, hlive, List.replicate_succ']
    have hlimits := @limits_serve cfg₀ (after n) forged
    rw [after_succ, hlimits.1, hlimits.2]
    exact ⟨hmax, hwindow, hcharged⟩

theorem answers_after (n : ℕ) (s : RelayState) : answers cfg₀ "a@b" key s
    (List.replicate n forged ++ [own]) =
    answers cfg₀ "a@b" key (Machine.run (RelayState.serve cfg₀) s (List.replicate n forged))
      [own] := by
  induction n generalizing s with
  | zero => rfl
  | succ n ih =>
    have hnone : s.answer cfg₀ "a@b" key forged = none := answer_of_ne (by simp [signedBy_forged]) s
    rw [List.replicate_succ, List.cons_append, answers, hnone, ih]
    rfl

/-- A hundred STOREs in the sender's name, none of them signed, and the sender's own is refused. -/
theorem budget_spent_by_others :
    withoutForged cfg₀ "a@b" key (List.replicate 100 forged ++ [own]) = withoutForged cfg₀ "a@b" key
      [own] ∧
      answers cfg₀ "a@b" key s₀ (List.replicate 100 forged ++ [own]) = [.error .rateLimited] ∧
      answers cfg₀ "a@b" key s₀ [own] = [.ok hash] := by
  obtain ⟨hmax, hwindow, htimes⟩ := limiter_after le_rfl
  have hfull : RateLimiter.Full (after 100).limiter.maxPerHour (after 100).limiter.window
      ((after 100).limiter.timestamps "a@b") w₀.now := by
    unfold RateLimiter.Full RateLimiter.live
    rw [hmax, hwindow, htimes, List.filter_replicate, if_pos (by decide), List.length_replicate]
  have hlimited :
      (acceptEnvelope cfg₀ w₀ (after 100) false "a@b" signature (envelope [1, 2, 3]) hash).2 =
      .error .rateLimited := (rateLimited_iff rfl).mpr hfull
  have hanswer : (after 100).answer cfg₀ "a@b" key own = some (.error .rateLimited) := by
    rw [own, answer_of_own signedBy_own, hlimited]
  refine ⟨?_, ?_, answers_own⟩
  · rw [withoutForged_run 100]
    exact (withoutForged_run 0).symm
  · rw [answers_after]
    change answers cfg₀ "a@b" key (after 100) [own] = _
    rw [answers, hanswer]
    rfl

/-- One STORE in the sender's name leaves the budget open, and the sender's own is answered as
without it. -/
theorem own_answered_as_before :
    answers cfg₀ "a@b" key s₀ [forged, own] = answers cfg₀ "a@b" key s₀ [own] := by
  have hsame : withoutForged cfg₀ "a@b" key [forged, own] = withoutForged cfg₀ "a@b" key [own] :=
    (withoutForged_run 1).trans (withoutForged_run 0).symm
  have hforged : forged.attempt cfg₀ "a@b" key = some (w₀.now, false) :=
    attempt_of_some signedBy_forged
  have hown : own.attempt cfg₀ "a@b" key = some (w₀.now, true) := attempt_of_some signedBy_own
  apply (own_answers_iff cfg₀ (fun w rec => key_of_resolve) s₀ hsame).2
  · unfold BudgetOwn
    rw [List.filterMap_cons_some hforged, List.filterMap_cons_some hown]
    refine ⟨fun h => absurd h Bool.false_ne_true, fun _ => ?_, trivial⟩
    decide
  · unfold BudgetOwn
    rw [List.filterMap_cons_some hown]
    exact ⟨fun _ => Iff.rfl, trivial⟩

end Impersonated

end Dmcn
