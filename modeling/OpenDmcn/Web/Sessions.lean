import OpenDmcn.Lib.Hex
import OpenDmcn.Lib.RawURL
import OpenDmcn.Lib.Run
import OpenDmcn.Lib.Time

/-! Session tokens (`webcore/sessions.go`). A token carries its own claims under a MAC; what the
server holds is a list of the tokens that were revoked before they expire, which it writes to a file
as well as it can. -/

namespace Dmcn.Sessions

open Go

structure Claims where
  sub : String
  iat : Int64
  exp : Int64
  jti : String
  deriving DecidableEq, Inhabited

structure TokenRuntime where
  mac : Bytes → Bytes
  claims : Encoding Claims

inductive SessionError where
  | notFound | expired | revoked
  deriving DecidableEq

abbrev Denylist := String → Option Int64

structure SessionStore where
  ttl : Duration
  path : String
  revoked : Denylist
  file : Option Denylist

section Tokens

variable (rt : TokenRuntime)

def jwtHeader : String := RawURL.encode (utf8 "\x7b\"alg\":\"HS256\",\"typ\":\"JWT\"\x7d")

def signingInput (claims : Claims) : String :=
  jwtHeader ++ "." ++ RawURL.encode (rt.claims.marshal claims)

def sign (claims : Claims) : String :=
  signingInput rt claims ++ "." ++ RawURL.encode (rt.mac (utf8 (signingInput rt claims)))

def parts (token : String) : List String := (token.toList.splitOn '.').map String.ofList

def verify (token : String) : Option Claims :=
  match parts token with
  | [header, body, signature] => do
    let got ← RawURL.decode signature
    if got = rt.mac (utf8 (header ++ "." ++ body)) then
      let payload ← RawURL.decode body
      rt.claims.unmarshal payload
    else none
  | _ => none

end Tokens

namespace SessionStore

def defaultTTL : Duration := 24 * Duration.hour

def prune (revoked : Denylist) (now : Time) : Denylist := fun jti =>
  (revoked jti).filter fun exp => !(exp < now.unix)

def restart (s : SessionStore) (ttl : Duration) (now : Time) : SessionStore :=
  { s with
    ttl := if ttl = 0 then defaultTTL else ttl
    revoked := if s.path = "" then fun _ => none else prune (s.file.getD fun _ => none) now }

def create (rt : TokenRuntime) (s : SessionStore) (address : String) (jti : Fixed 16) (now : Time) :
    Claims × String :=
  let claims : Claims := ⟨address, now.unix, (now.add s.ttl).unix, Hex.encode jti.val⟩
  (claims, sign rt claims)

def save (s : SessionStore) (saves : Bool) : SessionStore :=
  if s.path = "" then s else if saves then { s with file := some s.revoked } else s

def revoke (s : SessionStore) (jti : String) (exp : Int64) (now : Time) (saves : Bool) :
    SessionStore :=
  { s with revoked := prune (Function.update s.revoked jti (some exp)) now }.save saves

def delete (rt : TokenRuntime) (s : SessionStore) (token : String) (now : Time) (saves : Bool) :
    SessionStore :=
  match verify rt token with
  | none => s
  | some claims => if claims.jti = "" then s else s.revoke claims.jti claims.exp now saves

def check (rt : TokenRuntime) (token : String) (now : Time) : Except SessionError Claims :=
  match verify rt token with
  | none => .error .notFound
  | some claims => if now.unix > claims.exp then .error .expired else .ok claims

def lookUp (s : SessionStore) (claims : Claims) : Except SessionError String :=
  if (s.revoked claims.jti).isSome then .error .revoked
  else if claims.sub = "" then .error .notFound
  else .ok claims.sub

def validate (rt : TokenRuntime) (s : SessionStore) (token : String) (now : Time) :
    Except SessionError String :=
  check rt token now >>= s.lookUp

end SessionStore

/-- What happens to a store. The two halves of a validation are apart, since other requests come
between them. -/
inductive Event where
  | create (address : String) (jti : Fixed 16) (now : Time)
  | check (token : String) (now : Time)
  | lookUp (n : ℕ)
  | delete (token : String) (now : Time) (saves : Bool)
  | restart (ttl : Duration) (now : Time)

/-- A store in a run: with the second of the last look at the clock and of the last pruning, the
claims of the tokens that were issued and of those that were logged out, and the validations that
are half done. -/
structure Run where
  store : SessionStore
  clock : Int64
  pruned : Int64
  issued : List Claims
  loggedOut : List Claims
  inFlight : List (String × Claims)

namespace Run

def step (rt : TokenRuntime) (r : Run) : Event → Run
  | .create address jti now =>
    { r with clock := now.unix, issued := r.issued ++ [(r.store.create rt address jti now).1] }
  | .check token now =>
    { r with
      clock := now.unix
      inFlight := match SessionStore.check rt token now with
        | .ok claims => r.inFlight ++ [(token, claims)]
        | .error _ => r.inFlight }
  | .lookUp n => { r with inFlight := r.inFlight.eraseIdx n }
  | .delete token now saves =>
    match verify rt token with
    | none => { r with clock := now.unix }
    | some claims =>
      { r with
        store := r.store.delete rt token now saves
        clock := now.unix
        pruned := now.unix
        loggedOut := claims :: r.loggedOut }
  | .restart ttl now =>
    { r with store := r.store.restart ttl now, clock := now.unix, pruned := now.unix, inFlight :=
      [] }

def opened (ttl : Duration) (path : String) (now : Time) : Run :=
  ⟨⟨if ttl = 0 then SessionStore.defaultTTL else ttl, path, fun _ => none, none⟩, now.unix,
    now.unix, [], [], []⟩

end Run

section Claims

variable (rt : TokenRuntime)

def IssuedPart (r : Run) (token : String) : Prop :=
  ∃ header body signature, parts token = [header, body, signature] ∧
    ∃ claims ∈ r.issued, header ++ "." ++ body = signingInput rt claims

/-- The clock does not go back; and the MAC and the random source are ideal: nobody else makes a MAC
that matches, and no id is drawn twice. -/
def Idealised (r : Run) : Event → Prop
  | .create _ jti now => r.clock ≤ now.unix ∧ ∀ claims ∈ r.issued, claims.jti ≠ Hex.encode jti.val
  | .check token now | .delete token now _ =>
    r.clock ≤ now.unix ∧ ∀ header body signature, parts token = [header, body, signature] →
      RawURL.decode signature = some (rt.mac (utf8 (header ++ "." ++ body))) →
      ∃ claims ∈ r.issued, header ++ "." ++ body = signingInput rt claims
  | .lookUp _ => True
  | .restart _ now => r.clock ≤ now.unix

def Final (r : Run) : Event → Prop
  | .lookUp n => ∀ token claims sub, r.inFlight[n]? = some (token, claims) → r.store.lookUp claims =
    .ok sub →
      claims ∉ r.loggedOut
  | _ => True

def Issued (r : Run) : Event → Prop
  | .lookUp n => ∀ token claims sub, r.inFlight[n]? = some (token, claims) → r.store.lookUp claims =
    .ok sub →
      claims ∈ r.issued ∧ IssuedPart rt r token
  | _ => True

/-- The verdict on a token that has not expired does not hang on what is done with others. -/
def Apart (r : Run) : Event → Prop
  | .delete token now saves => ∀ token' claims claims', verify rt token = some claims →
      verify rt token' = some claims' → claims' ∈ r.issued → claims' ≠ claims →
        ¬ now.unix > claims'.exp →
        (r.store.delete rt token now saves).validate rt token' now = r.store.validate rt token' now
  | .restart _ now => ∀ claims ∈ r.issued, ¬ now.unix > claims.exp → ∀ l, r.store.file = some l →
      SessionStore.prune l now claims.jti = l claims.jti
  | _ => True

/-- A restart finds in the file what was revoked and has not expired, and a denylist is looked at
before an expired entry of the token is pruned. -/
def Meets (r : Run) : Event → Prop
  | .restart _ now => ∀ jti exp, r.store.revoked jti = some exp → ¬ exp < now.unix →
      ∃ l, r.store.file = some l ∧ l jti = some exp
  | .lookUp n => ∀ token claims, r.inFlight[n]? = some (token, claims) → ¬ claims.exp < r.pruned
  | _ => True

end Claims

section Verified

variable {rt : TokenRuntime} {token : String} {claims : Claims} {r : Run} {now : Time}

theorem eq_of_joined {header body header' body' : List Char} (hheader : '.' ∉ header')
    (hbody : '.' ∉ body') (h : header ++ '.' :: body = header' ++ '.' :: body') : header = header' ∧
    body = body' := by
  have hcount := congrArg (List.count '.') h
  rw [List.count_append, List.count_append, List.count_cons_self, List.count_cons_self,
    List.count_eq_zero_of_not_mem hheader, List.count_eq_zero_of_not_mem hbody] at hcount
  have hplain : '.' ∉ header := List.count_eq_zero.mp (by omega)
  have htake : ∀ l : List Char, '.' ∉ l → ∀ rest, (l ++ '.' :: rest).takeWhile (· ≠ '.') = l := by
    intro l hl rest
    rw [List.takeWhile_append_of_pos, List.takeWhile_cons_of_neg (by simp), List.append_nil]
    intro c hc
    exact decide_eq_true fun heq => hl (heq ▸ hc)
  have hfirst : header = header' := by
    rw [← htake header hplain body, h, htake header' hheader body']
  subst hfirst
  exact ⟨rfl, List.tail_eq_of_cons_eq (List.append_cancel_left h)⟩

theorem decode_of_signingInput {header body : String}
    (h : header ++ "." ++ body = signingInput rt claims) :
    RawURL.decode body = some (rt.claims.marshal claims) := by
  have hlists := congrArg String.toList h
  unfold signingInput at hlists
  simp only [String.toList_append] at hlists
  have hpoint : ".".toList = ['.'] := rfl
  rw [hpoint, List.append_assoc, List.append_assoc, List.singleton_append, List.singleton_append]
    at hlists
  have hplain : ∀ b : Bytes, '.' ∉ (RawURL.encode b).toList :=
    fun b hmem => (RawURL.plain_of_mem hmem).1 rfl
  have hbody := (eq_of_joined (hplain _) (hplain _) hlists).2
  rw [String.toList_injective hbody, RawURL.decode_encode]

theorem verify_eq_some : verify rt token = some claims ↔
    ∃ header body signature payload, parts token = [header, body, signature] ∧
      RawURL.decode signature = some (rt.mac (utf8 (header ++ "." ++ body))) ∧
      RawURL.decode body = some payload ∧ rt.claims.unmarshal payload = some claims := by
  unfold verify
  constructor
  · intro h
    split at h
    · next header body signature hparts =>
      obtain ⟨got, hgot, hrest⟩ := Option.bind_eq_some_iff.mp h
      split at hrest
      · next hmac =>
        obtain ⟨payload, hpayload, hclaims⟩ := Option.bind_eq_some_iff.mp hrest
        exact ⟨header, body, signature, payload, hparts, hmac ▸ hgot, hpayload, hclaims⟩
      · exact nomatch hrest
    · exact nomatch h
  · rintro ⟨header, body, signature, payload, hparts, hmac, hpayload, hclaims⟩
    rw [hparts]
    dsimp only
    rw [hmac, Option.bind_eq_bind, Option.bind_some, if_pos rfl, hpayload, Option.bind_some,
      hclaims]

theorem issued_of_verify (h : verify rt token = some claims)
    (hideal : ∀ header body signature, parts token = [header, body, signature] →
      RawURL.decode signature = some (rt.mac (utf8 (header ++ "." ++ body))) →
      ∃ claims ∈ r.issued, header ++ "." ++ body = signingInput rt claims) :
    claims ∈ r.issued ∧ IssuedPart rt r token := by
  obtain ⟨header, body, signature, payload, hparts, hmac, hbody, hpayload⟩ := verify_eq_some.mp h
  obtain ⟨issued, hissued, hinput⟩ := hideal header body signature hparts hmac
  rw [decode_of_signingInput hinput, Option.some.injEq] at hbody
  rw [← hbody, Encoding.unmarshal_marshal, Option.some.injEq] at hpayload
  exact ⟨hpayload ▸ hissued, header, body, signature, hparts, issued, hissued, hinput⟩

end Verified

section Denylist

variable {rt : TokenRuntime} {s : SessionStore} {revoked : Denylist} {jti : String} {exp : Int64}
  {now : Time}
  {saves : Bool} {token : String} {claims : Claims}

open SessionStore

theorem prune_eq_some : prune revoked now jti = some exp ↔ revoked jti = some exp ∧
    ¬ exp < now.unix := by
  unfold prune
  rw [Option.filter_eq_some_iff]
  simp

theorem prune_of_live (h : ∀ exp, revoked jti = some exp → ¬ exp < now.unix) :
    prune revoked now jti = revoked jti := by
  cases hentry : revoked jti with
  | none => rw [prune, hentry, Option.filter_none]
  | some exp => exact prune_eq_some.mpr ⟨hentry, h exp hentry⟩

theorem revoked_save : (s.save saves).revoked = s.revoked := by
  unfold save
  split
  · rfl
  · split
    · rfl
    · rfl

theorem file_save : (s.save saves).file = s.file ∨ (s.save saves).file = some s.revoked := by
  unfold save
  split
  · exact .inl rfl
  · split
    · exact .inr rfl
    · exact .inl rfl

theorem delete_of_verify (h : verify rt token = some claims) (hjti : claims.jti ≠ "") :
    s.delete rt token now saves = s.revoke claims.jti claims.exp now saves := by
  unfold SessionStore.delete
  rw [h]
  dsimp only
  rw [if_neg hjti]

theorem revoked_revoke :
    (s.revoke jti exp now saves).revoked = prune (Function.update s.revoked jti (some exp)) now :=
  revoked_save

theorem file_revoke : (s.revoke jti exp now saves).file = s.file ∨
    (s.revoke jti exp now saves).file =
      some (prune (Function.update s.revoked jti (some exp)) now) := file_save

theorem path_revoke : (s.revoke jti exp now saves).path = s.path := by
  unfold revoke save
  split
  · rfl
  · split
    · rfl
    · rfl

theorem file_revoke_unsaved (h : s.path = "") : (s.revoke jti exp now saves).file = s.file := by
  unfold revoke save
  rw [if_pos h]

theorem revoked_restart_of_file {ttl : Duration} {l : Denylist} (hpath : s.path ≠ "")
    (hfile : s.file = some l) :
    (s.restart ttl now).revoked = prune l now := by
  unfold restart
  dsimp only
  rw [if_neg hpath, hfile, Option.getD_some]

theorem revoked_restart {ttl : Duration} (h : (s.restart ttl now).revoked jti = some exp) :
    ∃ l, s.file = some l ∧ l jti = some exp := by
  unfold restart at h
  dsimp only at h
  split at h
  · exact nomatch h
  · have hentry := (prune_eq_some.mp h).1
    cases hfile : s.file with
    | none =>
      rw [hfile] at hentry
      exact nomatch hentry
    | some l =>
      rw [hfile] at hentry
      exact ⟨l, rfl, hentry⟩

end Denylist

section Runs

variable {rt : TokenRuntime} {r : Run} {e : Event}

def Entries (issued : List Claims) (l : Denylist) : Prop :=
  ∀ jti exp, l jti = some exp → ∃ claims ∈ issued, claims.jti = jti ∧ claims.exp = exp

structure Sound (rt : TokenRuntime) (r : Run) : Prop where
  distinct : ∀ claims ∈ r.issued, ∀ claims' ∈ r.issued, claims.jti = claims'.jti → claims = claims'
  named : ∀ claims ∈ r.issued, claims.jti ≠ ""
  loggedOut : ∀ claims ∈ r.loggedOut, claims ∈ r.issued
  inFlight : ∀ token claims, (token, claims) ∈ r.inFlight → claims ∈ r.issued ∧
    IssuedPart rt r token
  entries : Entries r.issued r.store.revoked
  saved : ∀ l, r.store.file = some l → Entries r.issued l
  unsaved : r.store.path = "" → r.store.file = none
  pruned : r.pruned ≤ r.clock

def Kept (r : Run) : Prop :=
  ∀ claims ∈ r.loggedOut, r.store.revoked claims.jti = some claims.exp ∨ claims.exp < r.pruned

theorem Entries.mono {issued issued' : List Claims} {l : Denylist} (h : Entries issued l)
    (hsub : ∀ claims ∈ issued, claims ∈ issued') : Entries issued' l := by
  intro jti exp hentry
  obtain ⟨claims, hmem, hclaims⟩ := h jti exp hentry
  exact ⟨claims, hsub claims hmem, hclaims⟩

theorem Entries.revoke {issued : List Claims} {l : Denylist} {claims : Claims} {now : Time}
    (h : Entries issued l) (hmem : claims ∈ issued) :
    Entries issued (SessionStore.prune (Function.update l claims.jti (some claims.exp)) now) := by
  intro jti exp hentry
  have hupdated := (prune_eq_some.mp hentry).1
  by_cases hjti : jti = claims.jti
  · subst hjti
    rw [Function.update_self, Option.some.injEq] at hupdated
    exact ⟨claims, hmem, rfl, hupdated⟩
  · rw [Function.update_of_ne hjti] at hupdated
    exact h jti exp hupdated

theorem Sound.of_clock {clock : Int64} (h : Sound rt r) (hle : r.clock ≤ clock) :
    Sound rt { r with clock := clock } :=
  ⟨h.distinct, h.named, h.loggedOut, h.inFlight, h.entries, h.saved, h.unsaved,
    Int64.le_trans h.pruned hle⟩

theorem hexId_ne (jti : Fixed 16) : Hex.encode jti.val ≠ "" := by
  intro hempty
  have hlength := congrArg (fun s => s.toList.length) hempty
  simp only [Hex.encode, String.toList_ofList, Hex.length_encodeChars, jti.length_eq] at hlength
  exact absurd hlength (by decide)

theorem sound_step (h : Sound rt r) (he : Idealised rt r e) : Sound rt (r.step rt e) := by
  cases e with
  | create address jti now =>
    obtain ⟨hclock, hfresh⟩ := he
    have hsub : ∀ claims ∈ r.issued, claims ∈ r.issued ++ [(r.store.create rt address jti now).1] :=
      fun claims hmem => List.mem_append_left _ hmem
    refine ⟨?_, ?_, ?_, ?_, h.entries.mono hsub, fun l hl => (h.saved l hl).mono hsub, h.unsaved,
      Int64.le_trans h.pruned hclock⟩
    · intro claims hmem claims' hmem' hjti
      rcases List.mem_append.mp hmem with hold | hnew <;> rcases List.mem_append.mp hmem' with hold'
        | hnew'
      · exact h.distinct claims hold claims' hold' hjti
      · rw [List.mem_singleton.mp hnew'] at hjti
        exact absurd hjti (hfresh claims hold)
      · rw [List.mem_singleton.mp hnew] at hjti
        exact absurd hjti.symm (hfresh claims' hold')
      · rw [List.mem_singleton.mp hnew, List.mem_singleton.mp hnew']
    · intro claims hmem
      rcases List.mem_append.mp hmem with hold | hnew
      · exact h.named claims hold
      · rw [List.mem_singleton.mp hnew]
        exact hexId_ne jti
    · exact fun claims hmem => hsub claims (h.loggedOut claims hmem)
    · intro token claims hmem
      obtain ⟨hissued, header, body, signature, hparts, issued, hmem, hinput⟩ :=
        h.inFlight token claims hmem
      exact ⟨hsub claims hissued, header, body, signature, hparts, issued, hsub issued hmem, hinput⟩
  | check token now =>
    have hsound := h.of_clock he.1
    refine ⟨hsound.distinct, hsound.named, hsound.loggedOut, ?_, hsound.entries, hsound.saved,
      hsound.unsaved, hsound.pruned⟩
    intro token' claims hmem
    unfold Run.step at hmem
    dsimp only at hmem
    split at hmem
    · next checked hchecked =>
      rcases List.mem_append.mp hmem with hold | hnew
      · exact h.inFlight token' claims hold
      · have hpair := List.mem_singleton.mp hnew
        rw [Prod.mk.injEq] at hpair
        obtain ⟨rfl, rfl⟩ := hpair
        have hverify : verify rt token' = some claims := by
          unfold SessionStore.check at hchecked
          split at hchecked
          · exact nomatch hchecked
          · next verified hverified =>
            split at hchecked
            · exact nomatch hchecked
            · rw [hverified, Except.ok.inj hchecked]
        exact issued_of_verify hverify he.2
    · exact h.inFlight token' claims hmem
  | lookUp n =>
    exact ⟨h.distinct, h.named, h.loggedOut,
      fun token claims hmem => h.inFlight token claims (List.mem_of_mem_eraseIdx hmem), h.entries,
        h.saved, h.unsaved,
      h.pruned⟩
  | delete token now saves =>
    unfold Run.step
    dsimp only
    split
    · exact h.of_clock he.1
    · next claims hverify =>
      have hissued := (issued_of_verify hverify he.2).1
      have hrevoked : Entries r.issued
          (SessionStore.prune (Function.update r.store.revoked claims.jti (some claims.exp)) now) :=
        h.entries.revoke hissued
      rw [delete_of_verify hverify (h.named claims hissued)]
      refine ⟨h.distinct, h.named, List.forall_mem_cons.mpr ⟨hissued, h.loggedOut⟩, h.inFlight, ?_,
        ?_, ?_, Int64.le_refl _⟩
      · rw [revoked_revoke]
        exact hrevoked
      · intro l hl
        dsimp only at hl
        rcases file_revoke with hsame | hwritten
        · exact h.saved l (hsame.symm.trans hl)
        · rw [← Option.some.inj (hwritten.symm.trans hl)]
          exact hrevoked
      · intro hpath
        dsimp only at hpath ⊢
        rw [path_revoke] at hpath
        rw [file_revoke_unsaved hpath]
        exact h.unsaved hpath
  | restart ttl now =>
    refine ⟨h.distinct, h.named, h.loggedOut, fun token claims hmem => absurd hmem List.not_mem_nil,
      ?_, h.saved, h.unsaved, Int64.le_refl _⟩
    intro jti exp hentry
    obtain ⟨l, hl, hlisted⟩ := revoked_restart hentry
    exact h.saved l hl jti exp hlisted

theorem kept_step (h : Sound rt r) (hkept : Kept r) (he : Idealised rt r e) (hmeets : Meets r e) :
    Kept (r.step rt e) := by
  cases e with
  | create address jti now => exact hkept
  | check token now => exact hkept
  | lookUp n => exact hkept
  | delete token now saves =>
    unfold Run.step
    dsimp only
    split
    · exact hkept
    · next claims hverify =>
      have hissued := (issued_of_verify hverify he.2).1
      rw [delete_of_verify hverify (h.named claims hissued)]
      intro out hout
      dsimp only
      rw [revoked_revoke]
      by_cases hexpired : out.exp < now.unix
      · exact .inr hexpired
      · left
        rw [prune_eq_some]
        refine ⟨?_, hexpired⟩
        rcases List.mem_cons.mp hout with rfl | hold
        · exact Function.update_self _ _ _
        · by_cases hjti : out.jti = claims.jti
          · have hsame := h.distinct out (h.loggedOut out hold) claims hissued hjti
            subst hsame
            exact Function.update_self _ _ _
          · rw [Function.update_of_ne hjti]
            rcases hkept out hold with hlisted | hpast
            · exact hlisted
            · exact absurd (Int64.lt_of_lt_of_le hpast (Int64.le_trans h.pruned he.1)) hexpired
  | restart ttl now =>
    intro out hout
    by_cases hexpired : out.exp < now.unix
    · exact .inr hexpired
    · left
      rcases hkept out hout with hlisted | hpast
      · obtain ⟨l, hl, hentry⟩ := hmeets out.jti out.exp hlisted hexpired
        have hpath : r.store.path ≠ "" := by
          intro hnone
          rw [h.unsaved hnone] at hl
          exact nomatch hl
        change (r.store.restart ttl now).revoked out.jti = some out.exp
        rw [revoked_restart_of_file hpath hl, prune_eq_some]
        exact ⟨hentry, hexpired⟩
      · exact absurd (Int64.lt_of_lt_of_le hpast (Int64.le_trans h.pruned he)) hexpired

theorem issued_of_sound (h : Sound rt r) : Issued rt r e := by
  cases e with
  | lookUp n =>
    exact fun token claims sub hmem _ => h.inFlight token claims (List.mem_of_getElem? hmem)
  | create address jti now => trivial
  | check token now => trivial
  | delete token now saves => trivial
  | restart ttl now => trivial

theorem final_of_kept (hkept : Kept r) (hmeets : Meets r e) : Final r e := by
  cases e with
  | lookUp n =>
    intro token claims sub hmem haccepted hout
    rcases hkept claims hout with hlisted | hpast
    · unfold SessionStore.lookUp at haccepted
      rw [hlisted, Option.isSome_some, if_pos rfl] at haccepted
      exact nomatch haccepted
    · exact hmeets token claims hmem hpast
  | create address jti now => trivial
  | check token now => trivial
  | delete token now saves => trivial
  | restart ttl now => trivial

theorem live_of_entries {issued : List Claims} {l : Denylist} {claims : Claims} {now : Time}
    (hdistinct : ∀ claims ∈ issued, ∀ claims' ∈ issued, claims.jti = claims'.jti → claims = claims')
    (h : Entries issued l) (hmem : claims ∈ issued) (hlive : ¬ now.unix > claims.exp) :
    ∀ exp, l claims.jti = some exp → ¬ exp < now.unix := by
  intro exp hentry
  obtain ⟨claims', hmem', hjti, hexp⟩ := h claims.jti exp hentry
  rw [hdistinct claims' hmem' claims hmem hjti] at hexp
  rw [← hexp]
  exact hlive

theorem apart_of_sound (h : Sound rt r) (he : Idealised rt r e) : Apart rt r e := by
  cases e with
  | delete token now saves =>
    intro token' claims claims' hverify hverify' hissued' hne hlive
    have hissued := (issued_of_verify hverify he.2).1
    have hjti : claims'.jti ≠ claims.jti :=
      fun hsame => hne (h.distinct claims' hissued' claims hissued hsame)
    have hentry : (r.store.revoke claims.jti claims.exp now saves).revoked claims'.jti =
        r.store.revoked claims'.jti := by
      have hother : Function.update r.store.revoked claims.jti (some claims.exp) claims'.jti =
          r.store.revoked claims'.jti := Function.update_of_ne hjti _ _
      rw [revoked_revoke, prune_of_live, hother]
      rw [hother]
      exact live_of_entries h.distinct h.entries hissued' hlive
    have hchecked : SessionStore.check rt token' now = .ok claims' := by
      unfold SessionStore.check
      rw [hverify']
      exact if_neg hlive
    unfold SessionStore.validate
    rw [hchecked, delete_of_verify hverify (h.named claims hissued)]
    change SessionStore.lookUp _ claims' = SessionStore.lookUp _ claims'
    unfold SessionStore.lookUp
    rw [hentry]
  | restart ttl now =>
    intro claims hmem hlive l hl
    exact prune_of_live (live_of_entries h.distinct (h.saved l hl) hmem hlive)
  | create address jti now => trivial
  | check token now => trivial
  | lookUp n => trivial

theorem sound_opened {ttl : Duration} {path : String} {now : Time} :
    Sound rt (Run.opened ttl path now) where
  distinct := fun _ hmem => absurd hmem List.not_mem_nil
  named := fun _ hmem => absurd hmem List.not_mem_nil
  loggedOut := fun _ hmem => absurd hmem List.not_mem_nil
  inFlight := fun _ _ hmem => absurd hmem List.not_mem_nil
  entries := fun _ _ hentry => nomatch hentry
  saved := fun _ hl => nomatch hl
  unsaved := fun _ => rfl
  pruned := Int64.le_refl _

/-- What validates was issued, and no token hangs on another, in every run; and logging out is final
in the runs in which a restart finds what was revoked and no denylist is looked at too late. -/
theorem logout_final (rt : TokenRuntime) (ttl : Duration) (path : String) (now : Time)
    (events : List Event)
    (hideal : Machine.Along (Run.step rt) (Idealised rt) (Run.opened ttl path now) events) :
    Machine.Along (Run.step rt) (Issued rt) (Run.opened ttl path now) events ∧
      Machine.Along (Run.step rt) (Apart rt) (Run.opened ttl path now) events ∧
      (Machine.Along (Run.step rt) Meets (Run.opened ttl path now) events →
        Machine.Along (Run.step rt) Final (Run.opened ttl path now) events) := by
  have hsound : Machine.Throughout (Run.step rt) (Sound rt) (Run.opened ttl path now) events :=
    Machine.throughout_of_along sound_opened (fun r e h he => sound_step h he) hideal
  refine ⟨hideal.mono hsound fun r e h _ => issued_of_sound h,
    hideal.mono hsound fun r e h he => apart_of_sound h he, fun hmeets => ?_⟩
  have hboth : Machine.Throughout (Run.step rt) (fun r => Sound rt r ∧ Kept r)
      (Run.opened ttl path now) events :=
    Machine.throughout_of_along ⟨sound_opened, fun claims hmem => absurd hmem List.not_mem_nil⟩
      (fun r e h he => ⟨sound_step h.1 he.1, kept_step h.1 h.2 he.1 he.2⟩) (hideal.and hmeets)
  exact hmeets.mono hboth fun r e h he => final_of_kept h.2 he

end Runs

section Issuing

variable {rt : TokenRuntime} {claims : Claims} {r : Run} {now : Time}

theorem parts_sign : parts (sign rt claims) =
    [jwtHeader, RawURL.encode (rt.claims.marshal claims),
      RawURL.encode (rt.mac (utf8 (signingInput rt claims)))] := by
  have hplain : ∀ b : Bytes, '.' ∉ (RawURL.encode b).toList :=
    fun b hmem => (RawURL.plain_of_mem hmem).1 rfl
  have hlist : (sign rt claims).toList =
      jwtHeader.toList ++ '.' :: ((RawURL.encode (rt.claims.marshal claims)).toList ++
        '.' :: (RawURL.encode (rt.mac (utf8 (signingInput rt claims)))).toList) := by
    unfold sign signingInput
    simp only [String.toList_append, List.append_assoc]
    rfl
  have hheader : '.' ∉ jwtHeader.toList := hplain _
  unfold parts
  rw [hlist, List.splitOn_append_cons_self_of_not_mem hheader,
    List.splitOn_append_cons_self_of_not_mem (hplain _), List.splitOn_eq_singleton (hplain _)]
  simp only [List.map_cons, List.map_nil, String.ofList_toList]

theorem verify_sign : verify rt (sign rt claims) = some claims :=
  verify_eq_some.mpr ⟨_, _, _, rt.claims.marshal claims, parts_sign, RawURL.decode_encode _,
    RawURL.decode_encode _, rt.claims.unmarshal_marshal claims⟩

theorem idealised_sign (hmem : claims ∈ r.issued) (header body signature : String)
    (hparts : parts (sign rt claims) = [header, body, signature]) :
    ∃ claims ∈ r.issued, header ++ "." ++ body = signingInput rt claims := by
  rw [parts_sign] at hparts
  simp only [List.cons.injEq, and_true] at hparts
  exact ⟨claims, hmem, by rw [signingInput, hparts.1, hparts.2.1]⟩

theorem check_of_verify {token : String} (hverify : verify rt token = some claims)
    (hlive : ¬ now.unix > claims.exp) :
    SessionStore.check rt token now = .ok claims := by
  unfold SessionStore.check
  rw [hverify]
  exact if_neg hlive

theorem step_check_of_ok {token : String} (r : Run)
    (hchecked : SessionStore.check rt token now = .ok claims) :
    r.step rt (.check token now) =
      { r with clock := now.unix, inFlight := r.inFlight ++ [(token, claims)] } := by
  unfold Run.step
  dsimp only
  rw [hchecked]

theorem step_check (r : Run) (hlive : ¬ now.unix > claims.exp) : r.step rt
    (.check (sign rt claims) now) =
      { r with clock := now.unix, inFlight := r.inFlight ++ [(sign rt claims, claims)] } :=
  step_check_of_ok r (check_of_verify verify_sign hlive)

theorem step_delete_of_verify {token : String} (r : Run) (hverify : verify rt token = some claims)
    (hjti : claims.jti ≠ "") (saves : Bool) : r.step rt (.delete token now saves) = { r with
      store := r.store.revoke claims.jti claims.exp now saves
      clock := now.unix
      pruned := now.unix
      loggedOut := claims :: r.loggedOut } := by
  unfold Run.step
  dsimp only
  rw [hverify]
  dsimp only
  rw [delete_of_verify hverify hjti]

theorem step_delete (r : Run) (hjti : claims.jti ≠ "") (saves : Bool) :
    r.step rt (.delete (sign rt claims) now saves) = { r with
      store := r.store.revoke claims.jti claims.exp now saves
      clock := now.unix
      pruned := now.unix
      loggedOut := claims :: r.loggedOut } :=
  step_delete_of_verify r verify_sign hjti saves

theorem issued_delete (r : Run) (token : String) (saves : Bool) :
    (r.step rt (.delete token now saves)).issued = r.issued := by
  unfold Run.step
  dsimp only
  split
  · rfl
  · rfl

theorem issued_restart (r : Run) (ttl : Duration) :
    (r.step rt (.restart ttl now)).issued = r.issued := rfl

theorem issued_check (r : Run) (token : String) :
    (r.step rt (.check token now)).issued = r.issued := rfl

theorem clock_delete (r : Run) (token : String) (saves : Bool) :
    (r.step rt (.delete token now saves)).clock = now.unix := by
  unfold Run.step
  dsimp only
  split
  · rfl
  · rfl

theorem idealised_check (hmem : claims ∈ r.issued) (hclock : r.clock ≤ now.unix) :
    Idealised rt r (.check (sign rt claims) now) :=
  ⟨hclock, fun header body signature hparts _ => idealised_sign hmem header body signature hparts⟩

theorem idealised_delete (hmem : claims ∈ r.issued) (hclock : r.clock ≤ now.unix) (saves : Bool) :
    Idealised rt r (.delete (sign rt claims) now saves) :=
  ⟨hclock, fun header body signature hparts _ => idealised_sign hmem header body signature hparts⟩

end Issuing

section Lost

deriving instance Countable for Claims

noncomputable def tokenRuntime : TokenRuntime where
  mac := fun b => (Fixed.copy 32 b).val
  claims := (Classical.choice (Codec.nonempty Claims)).toEncoding

def second (n : Int64) : Time := Time.ofUnix n

def aliceId : Fixed 16 := Fixed.copy 16 [1]

def bobId : Fixed 16 := Fixed.copy 16 [2]

def start : Run := Run.opened Duration.hour "revoked.json" (second 0)

def aliceClaims : Claims := ⟨"alice@example.org", 0, 3600, Hex.encode aliceId.val⟩

def bobClaims : Claims := ⟨"bob@example.org", 0, 3600, Hex.encode bobId.val⟩

noncomputable def aliceToken : String := sign tokenRuntime aliceClaims

noncomputable def bobToken : String := sign tokenRuntime bobClaims

def aliceIn : Event := .create "alice@example.org" aliceId (second 0)

def bobIn : Event := .create "bob@example.org" bobId (second 0)

noncomputable def restarted (saves : Bool) : List Event :=
  [aliceIn, .delete aliceToken (second 10) saves, .restart Duration.hour (second 20),
    .check aliceToken (second 30), .lookUp 0]

/-- Alice's token is looked at in its last second, and bob logs out before the denylist is looked
at. -/
noncomputable def overtaken : List Event :=
  [aliceIn, bobIn, .delete aliceToken (second 10) true, .check aliceToken (second 3600),
    .delete bobToken (second 3601) true, .lookUp 0]

theorem idealised_restarted (saves : Bool) :
    Machine.Along (Run.step tokenRuntime) (Idealised tokenRuntime) start (restarted saves) := by
  refine ⟨⟨by decide, fun _ hmem => absurd hmem List.not_mem_nil⟩, ?_, ?_, ?_, trivial, trivial⟩
  · exact idealised_delete List.mem_cons_self (by decide) saves
  · exact (clock_delete (start.step tokenRuntime aliceIn) aliceToken saves).trans_le (by decide)
  · apply idealised_check
    · rw [issued_restart, issued_delete]
      exact List.mem_cons_self
    · exact show (second 20).unix ≤ (second 30).unix by decide

theorem logout_final_restarted :
    Machine.Along (Run.step tokenRuntime) Final start (restarted true) := by
  apply (logout_final tokenRuntime Duration.hour "revoked.json" (second 0) _
    (idealised_restarted true)).2.2
  refine ⟨trivial, trivial, ?_, trivial, ?_, trivial⟩
  · unfold aliceToken
    rw [step_delete _ (hexId_ne aliceId)]
    exact fun jti exp hentry _ => ⟨_, rfl, hentry⟩
  · unfold aliceToken
    rw [step_check _ (by decide)]
    intro token claims hmem
    obtain ⟨-, rfl⟩ := Prod.mk.inj (Option.some.inj hmem)
    decide

/-- A token that was logged out is accepted, if the write of the denylist failed, and if another
token is logged out while it is looked at. -/
theorem logout_not_final :
    (Machine.Along (Run.step tokenRuntime) (Idealised tokenRuntime) start (restarted false) ∧
        ¬ Machine.Along (Run.step tokenRuntime) Final start (restarted false)) ∧
      Machine.Along (Run.step tokenRuntime) (Idealised tokenRuntime) start overtaken ∧
        ¬ Machine.Along (Run.step tokenRuntime) Final start overtaken := by
  refine ⟨⟨idealised_restarted false, ?_⟩, ?_, ?_⟩
  · rintro ⟨-, -, -, -, hfinal, -⟩
    unfold aliceToken at hfinal
    rw [step_check _ (by decide), step_delete _ (hexId_ne aliceId)] at hfinal
    exact hfinal _ aliceClaims "alice@example.org" rfl rfl List.mem_cons_self
  · have hfirst : ∀ claims ∈ start.issued, claims.jti ≠ Hex.encode aliceId.val :=
      fun _ hmem => absurd hmem List.not_mem_nil
    refine ⟨⟨by decide, hfirst⟩, ⟨by decide, ?_⟩, ?_, ?_, ?_, trivial, trivial⟩
    · intro claims hmem
      obtain rfl := List.mem_singleton.mp hmem
      decide
    · exact idealised_delete List.mem_cons_self (by decide) true
    · apply idealised_check
      · rw [issued_delete]
        exact List.mem_cons_self
      · rw [clock_delete]
        decide
    · apply idealised_delete
      · rw [issued_check, issued_delete]
        exact List.mem_cons_of_mem _ List.mem_cons_self
      · decide
  · rintro ⟨-, -, -, -, -, hfinal, -⟩
    unfold aliceToken bobToken at hfinal
    rw [step_delete _ (hexId_ne bobId), step_check _ (by decide), step_delete _ (hexId_ne aliceId)]
      at hfinal
    exact hfinal _ aliceClaims "alice@example.org" rfl rfl
      (List.mem_cons_of_mem _ List.mem_cons_self)

end Lost

end Dmcn.Sessions
