import OpenDmcn.Relay.OwnerAuth
import OpenDmcn.Relay.ReadsFit
import OpenDmcn.Web.SendMessage

/-! Required onion delivery. A relay learns what a mailbox demands when the mailbox is fetched, by
its key, keeps it in memory and refuses what does not come through another relay; the daemon's web
mail goes by the flag of the record that it looks up. -/

namespace Dmcn

open Go Guard

section Definitions

structure OnionState where
  relay : RelayState
  /-- What the verification service remembers of authority records. -/
  cache : String → Option DarCacheEntry

/-- What happens to a relay: a `handleFetch`, with the records and the network the node has then; an
envelope that arrives; anything else that changes what is stored or remembered; a restart, which
keeps the disk only. -/
inductive OnionEvent where
  | fetch (n : Node) (now : Time) (address : String)
  | accept (w : Surroundings) (onionRelay : Bool) (senderAddr : String) (senderSig : Bytes)
    (env : EncryptedEnvelope)
      (envHash : Fixed 32)
  | serve (stores : Stores) (cache : String → Option DarCacheEntry)
  | restart (limiter : RateLimiter)

namespace OnionState

variable (cfg : RelayConfig)

def fetch (s : OnionState) (n : Node) (now : Time) (address : String) : FetchState :=
  ((n.fetchRelay cfg.rt).openFetch cfg.rt ⟨n.caching cfg.rt s.cache, s.relay.onionRequired⟩ now
    address).2

def step (s : OnionState) : OnionEvent → OnionState
  | .fetch n now address =>
    let after := s.fetch cfg n now address
    ⟨{ s.relay with onionRequired := after.onionRequired }, after.registry.darCache⟩
  | .accept w onionRelay senderAddr senderSig env envHash =>
    { s with relay := (acceptEnvelope cfg w s.relay onionRelay senderAddr senderSig env envHash).1 }
  | .serve stores cache => ⟨{ s.relay with stores := stores }, cache⟩
  | .restart limiter => ⟨⟨limiter, fun _ => false, ⟨.empty, s.relay.stores.disk⟩⟩, fun _ => none⟩

end OnionState

/-- The effective policy of a record: its own flag, or the one of its domain's authority record. -/
def DemandsOnion (r : Registry) (now : Time) (rec : IdentityRecord) : Prop :=
  rec.requireOnion = true ∨ ∃ dar, r.view now (domainOf rec.address) = some dar ∧
    dar.requiresOnion = true

/-- The relay does not restart, and no fetch finds a record of this key that does not demand onion
delivery. -/
def KeepsLearnt (cfg : RelayConfig) (rxHex : String) (s : OnionState) : OnionEvent → Prop
  | .fetch n now address => ∀ rec, n.lookup cfg.rt now address = .ok (some rec) →
    rec.rxHex = rxHex →
      DemandsOnion (n.caching cfg.rt s.cache) now rec
  | .restart _ => False
  | .accept .. | .serve .. => True

/-- Nothing is stored of an envelope for this key that did not come through another relay. -/
def RefusesDirect (cfg : RelayConfig) (rxHex : String) (s : OnionState) : Prop :=
  ∀ w senderAddr senderSig env envHash, (∃ r ∈ env.recipients, r.addr = rxHex) →
    (acceptEnvelope cfg w s.relay false senderAddr senderSig env envHash).1.stores = s.relay.stores

end Definitions

section Learnt

variable {cfg : RelayConfig} {s : OnionState} {rxHex : String}

theorem requiresOnion_eq_true {r : Registry} {now : Time} {rec : IdentityRecord} :
    (r.requiresOnion now rec).1 = true ↔ DemandsOnion r now rec := by
  unfold DemandsOnion
  cases hview : r.view now (domainOf rec.address) with
  | none =>
    rw [Registry.requiresOnion_of_view_none hview]
    simp
  | some dar =>
    rw [Registry.requiresOnion_iff hview]
    simp

theorem acceptEnvelope_onionRequired (w : Surroundings) (s : RelayState) (onionRelay : Bool)
    (senderAddr : String) (senderSig : Bytes) (env : EncryptedEnvelope) (envHash : Fixed 32) :
    (acceptEnvelope cfg w s onionRelay senderAddr senderSig env envHash).1.onionRequired =
      s.onionRequired := by
  unfold acceptEnvelope
  dsimp only
  split
  · rfl
  · split
    · rfl
    · split
      · rfl
      · rfl

theorem refusesDirect_of_learnt (h : s.relay.onionRequired rxHex = true) :
    RefusesDirect cfg rxHex s := by
  rintro w senderAddr senderSig env envHash ⟨r, hr, haddr⟩
  have hany : env.recipients.any (fun r => s.relay.onionRequired r.addr) = true := by
    rw [List.any_eq_true]
    exact ⟨r, hr, by rw [haddr, h]⟩
  unfold acceptEnvelope
  dsimp only
  split
  · rfl
  · split
    · rfl
    · have hgate : senderGate cfg w s.relay.onionRequired false senderAddr senderSig env envHash =
          .error .onionRequired := by
        unfold senderGate
        rw [if_pos ⟨rfl, hany⟩]
      rw [hgate]

theorem fetch_onionRequired (cfg : RelayConfig) (s : OnionState) (n : Node) (now : Time)
    (address : String) :
    (∃ rec, n.lookup cfg.rt now address = .ok (some rec) ∧
      (s.fetch cfg n now address).onionRequired =
      Function.update s.relay.onionRequired rec.rxHex
        ((n.caching cfg.rt s.cache).requiresOnion now rec).1) ∨
    ((∀ rec, n.lookup cfg.rt now address ≠ .ok (some rec)) ∧
      (s.fetch cfg n now address).onionRequired = s.relay.onionRequired) := by
  unfold OnionState.fetch FetchRelay.openFetch
  rw [resolveIdentity_fetchRelay]
  cases n.lookup cfg.rt now address with
  | error e => exact .inr ⟨by simp, rfl⟩
  | ok found =>
    cases found with
    | none => exact .inr ⟨by simp, rfl⟩
    | some rec => exact .inl ⟨rec, rfl, rfl⟩

theorem learnt_step {e : OnionEvent} (hkeeps : KeepsLearnt cfg rxHex s e)
    (h : s.relay.onionRequired rxHex = true) :
    (s.step cfg e).relay.onionRequired rxHex = true := by
  cases e with
  | fetch n now address =>
    change (s.fetch cfg n now address).onionRequired rxHex = true
    rcases fetch_onionRequired cfg s n now address with ⟨rec, hlookup, heq⟩ | ⟨-, heq⟩
    · rw [heq]
      by_cases hkey : rec.rxHex = rxHex
      · rw [← hkey, Function.update_self]
        exact requiresOnion_eq_true.mpr (hkeeps rec hlookup hkey)
      · rw [Function.update_of_ne (Ne.symm hkey)]
        exact h
    · rw [heq]
      exact h
  | accept w onionRelay senderAddr senderSig env envHash =>
    change (acceptEnvelope cfg w s.relay onionRelay senderAddr senderSig env
      envHash).1.onionRequired rxHex = true
    rw [acceptEnvelope_onionRequired]
    exact h
  | serve stores cache => exact h
  | restart limiter => exact hkeeps.elim

theorem learnt_fetch {n : Node} {now : Time} {address : String} {rec : IdentityRecord}
    (hlookup : n.lookup cfg.rt now address = .ok (some rec))
    (hdemands : DemandsOnion (n.caching cfg.rt s.cache) now rec) :
    (s.step cfg (.fetch n now address)).relay.onionRequired rec.rxHex = true := by
  change (s.fetch cfg n now address).onionRequired rec.rxHex = true
  rcases fetch_onionRequired cfg s n now address with ⟨rec', hlookup', heq⟩ | ⟨hnone, -⟩
  · rw [hlookup, Except.ok.injEq, Option.some.injEq] at hlookup'
    subst hlookup'
    rw [heq, Function.update_self]
    exact requiresOnion_eq_true.mpr hdemands
  · exact absurd hlookup (hnone rec)

end Learnt

theorem attempts_of_requireOnion {h : MessageHandler} {session : String} {body : Option SendRequest}
    {out : Outgoing} {lookup : String → Except LookupError IdentityRecord} {router : RelayRouter}
    {rec : IdentityRecord} (hdec : decodeSend session body = .ok out)
    (hrouting : h.routing out.req.recipientAddress = some (lookup, router))
    (hlookup : lookup out.req.recipientAddress = .ok rec) (honion : rec.requireOnion = true) :
    ∀ a ∈ (h.handleSend session body).attempts, a.target = .onionExit := by
  have hrec : h.recipient lookup out.req.recipientAddress = some (rec, false) := by
    unfold MessageHandler.recipient
    rw [hlookup]
  rw [handleSend_routed hdec hrouting hrec]
  rcases sendTo_cases (h := h) router out rec false with ⟨e, he⟩ | ⟨-, he | ⟨hash, he⟩⟩
    | ⟨hdirect, -⟩
  · rw [he]
    simp [SendOutcome.refuse]
  · rw [he]
    simp
  · rw [he]
    simp
  · have hno := (hdirect rfl).2
    rw [honion, Bool.or_true] at hno
    cases hno

/-- What a relay has learnt it enforces, until it learns otherwise or restarts; and the web mail
obeys the flag of a record. -/
theorem onion_enforced_once_learnt (cfg : RelayConfig) :
    (∀ (s : OnionState) (n : Node) (now : Time) (address : String) (rec : IdentityRecord)
      (events : List OnionEvent), n.lookup cfg.rt now address = .ok (some rec) →
      DemandsOnion (n.caching cfg.rt s.cache) now rec →
      Machine.Along (OnionState.step cfg) (KeepsLearnt cfg rec.rxHex)
        (s.step cfg (.fetch n now address)) events →
      Machine.Throughout (OnionState.step cfg) (RefusesDirect cfg rec.rxHex)
        (s.step cfg (.fetch n now address)) events) ∧
    ∀ (h : MessageHandler) (session : String) (body : Option SendRequest) (out : Outgoing)
      (lookup : String → Except LookupError IdentityRecord) (router : RelayRouter)
      (rec : IdentityRecord),
      decodeSend session body = .ok out → h.routing out.req.recipientAddress =
      some (lookup, router) →
      lookup out.req.recipientAddress = .ok rec → rec.requireOnion = true →
      ∀ a ∈ (h.handleSend session body).attempts, a.target = .onionExit := by
  constructor
  · intro s n now address rec events hlookup hdemands hkeeps
    have hlearnt :
        Machine.Throughout (OnionState.step cfg) (fun t => t.relay.onionRequired rec.rxHex = true)
        (s.step cfg (.fetch n now address)) events :=
      Machine.throughout_of_along (learnt_fetch hlookup hdemands)
        (fun t e ht he => learnt_step he ht) hkeeps
    exact hlearnt.imp fun t ht => refusesDirect_of_learnt ht
  · intro h session body out lookup router rec hdec hrouting hlookup honion
    exact attempts_of_requireOnion hdec hrouting hlookup honion

/-! A domain whose mailboxes demand onion delivery, and a mailbox that the relay has not served
yet. -/
namespace Unlearnt

open Oversized Datastore

def authority : Pb.DomainAuthorityRecord := { plainAuthority "b.example" 1 with policyFlags := 4 }

def bob : Pb.IdentityRecord :=
  { (default : Pb.IdentityRecord) with address := "bob@b.example", relayHints := ["relay-1"] }

def held : IdentityRecord := .ofMessage bob []

noncomputable def node : Node := Stored.node cfg₀.rt bob authority

def start : OnionState := ⟨s₀, fun _ => none⟩

theorem lookup_held (now : Time) : node.lookup cfg₀.rt now "bob@b.example" = .ok (some held) :=
  Stored.lookup_node rfl rfl rfl rfl now

theorem demandsOnion_held (now : Time) : DemandsOnion (node.caching cfg₀.rt start.cache) now
    held := by
  have hdomain : domainOf held.address = "b.example" := by decide
  have hview : (node.caching cfg₀.rt start.cache).view now "b.example" =
      some (.fromProto authority) :=
    Stored.view_node now
  exact .inr ⟨_, (congrArg _ hdomain).trans hview, by decide⟩

theorem accept_direct (hash : Fixed 32) :
    (acceptEnvelope cfg₀ w₀ s₀ false "a@b" signature (envelope [1]) hash).1.stores =
      ⟨.empty, putAll ∅ ((mail [1] hash).writes cfg₀.mb)⟩ := by
  have hallowed := allow_s₀
  have hgate := senderGate_envelope [1] hash
  have hloop := storeLoop_envelope (List.cons_ne_nil 1 []) hash
  unfold acceptEnvelope
  rw [if_neg (by simp [w₀])]
  dsimp only
  rw [if_neg (by rw [hallowed]; simp), hgate]
  dsimp only
  rw [hloop]

theorem not_refusesDirect : ¬ RefusesDirect cfg₀ held.rxHex start := by
  intro h
  have hkey : recipient.addr = held.rxHex := by decide
  have hsame := h w₀ "a@b" signature (envelope [1]) (.zero 32) ⟨recipient, by simp [envelope], hkey⟩
  have hstores := (accept_direct (.zero 32)).symm.trans hsame
  have hdisk : putAll ∅ ((mail [1] (.zero 32)).writes cfg₀.mb) = ∅ := congrArg Stores.disk hstores
  have hnodup : (((mail [1] (.zero 32)).writes cfg₀.mb).map Prod.fst).Nodup :=
    (mail [1] (.zero 32)).nodup_keys
  obtain ⟨w, hfiled⟩ : ∃ w, w ∈ (mail [1] (.zero 32)).writes cfg₀.mb := ⟨_, List.mem_cons_self⟩
  have hlookup := lookup_putAll_of_mem (d := ∅) hnodup hfiled
  rw [hdisk] at hlookup
  cases hlookup

/-- The effective policy demands onion delivery, and the relay files direct mail before the first
fetch and again after a restart; and the web mail, which does not ask for the policy of the domain,
offers it directly. -/
theorem delivered_directly :
    node.lookup cfg₀.rt default "bob@b.example" = .ok (some held) ∧
    DemandsOnion (node.caching cfg₀.rt start.cache) default held ∧
    ¬ RefusesDirect cfg₀ held.rxHex start ∧
    ¬ RefusesDirect cfg₀ held.rxHex
      ((start.step cfg₀ (.fetch node default "bob@b.example")).step cfg₀
      (.restart s₀.limiter)) ∧
    ⟨.hint "relay-1", .accepted (.zero 32)⟩ ∈
      ((Sends.handler fun _ => .ok held).handleSend "alice@a.example"
        (some Sends.request)).attempts := by
  have hrestart :
      (start.step cfg₀ (.fetch node default "bob@b.example")).step cfg₀ (.restart s₀.limiter) =
        start := rfl
  refine ⟨lookup_held default, demandsOnion_held default, not_refusesDirect, ?_, ?_⟩
  · rw [hrestart]
    exact not_refusesDirect
  · exact List.mem_singleton_self _

theorem enforced_after_fetch :
    Machine.Throughout (OnionState.step cfg₀) (RefusesDirect cfg₀ held.rxHex)
      (start.step cfg₀ (.fetch node default "bob@b.example")) [.serve ⟨.empty, ∅⟩ fun _ => none] ∧
    ∀ a ∈ ((Sends.handler fun _ => .ok { held with requireOnion := true }).handleSend
      "alice@a.example"
      (some Sends.request)).attempts, a.target = .onionExit := by
  obtain ⟨env, hdec⟩ := Sends.decodeSend_request
  constructor
  · exact (onion_enforced_once_learnt cfg₀).1 start node default "bob@b.example" held
      [.serve ⟨.empty, ∅⟩ fun _ => none] (lookup_held default) (demandsOnion_held default)
        ⟨trivial, trivial⟩
  · exact (onion_enforced_once_learnt cfg₀).2
      (Sends.handler fun _ => .ok { held with requireOnion := true })
      "alice@a.example" (some Sends.request) ⟨Sends.request, env, []⟩ _ Sends.router
      { held with requireOnion := true } hdec rfl rfl rfl

end Unlearnt

end Dmcn
