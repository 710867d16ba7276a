import OpenDmcn.Lib.Hex
import OpenDmcn.Node.LocalFirst
import OpenDmcn.Registry.Policy

/-! Owner authentication, implemented twice: over a stream (`handleFetch` of `relay.go`), with the
domain's policy asked before the challenge, and in process for the daemon's own webmail
(`inProcRelay` of `relayadapter.go`). -/

namespace Dmcn

open Go Guard

section Definitions

structure FetchRelay where
  records : Option RecordStore
  lookup : Registry → Time → String → Answer IdentityRecord
  onionPolicy : Option (Registry → Time → IdentityRecord → Bool × Registry)
  fetchPolicy : Option (Registry → Time → IdentityRecord → Except PolicyError Unit × Registry)

/-- What it changes: the cache of the verification service and, for each mailbox, the onion policy
learnt. -/
structure FetchState where
  registry : Registry
  onionRequired : String → Bool

inductive FetchRefusal where
  | lookupFailed (e : LookupError) | policyPending (e : PolicyError) | authFailed
  deriving DecidableEq

def FetchRefusal.code : FetchRefusal → String
  | lookupFailed _ => "LOOKUP_FAILED"
  | policyPending _ => "POLICY_PENDING"
  | authFailed => "AUTH_FAILED"

def IdentityRecord.rxHex (rec : IdentityRecord) : String := Hex.encode rec.x25519Public.val

namespace FetchRelay

variable (rt : Runtime) (r : FetchRelay)

def learnOnion (s : FetchState) (now : Time) (rec : IdentityRecord) : FetchState :=
  let (requireOnion, registry) := match r.onionPolicy with
    | none => (rec.requireOnion, s.registry)
    | some onionPolicy => onionPolicy s.registry now rec
  ⟨registry, Function.update s.onionRequired rec.rxHex requireOnion⟩

def checkPolicy (s : FetchState) (now : Time) (rec : IdentityRecord) :
    Except FetchRefusal Unit × FetchState :=
  match r.fetchPolicy with
  | none => (.ok (), s)
  | some fetchPolicy =>
    let (verdict, registry) := fetchPolicy s.registry now rec
    (verdict.mapError .policyPending, { s with registry := registry })

def openFetch (s : FetchState) (now : Time) (address : String) :
    Except FetchRefusal IdentityRecord × FetchState :=
  match resolveIdentity rt r.records (r.lookup s.registry) now address with
  | .error e => (.error (.lookupFailed e), s)
  | .ok none => (.error (.lookupFailed .notFound), s)
  | .ok (some rec) =>
    let (verdict, s) := r.checkPolicy (r.learnOnion s now rec) now rec
    (verdict.map fun _ => rec, s)

def authorizeFetch (s : FetchState) (now : Time) (address : String) (nonce signature : Bytes) :
    Except FetchRefusal String × FetchState :=
  let (opened, s) := r.openFetch rt s now address
  (opened.bind fun rec =>
    if Crypto.verify rt rec.ed25519Public nonce signature then .ok rec.rxHex
      else .error .authFailed, s)

end FetchRelay

inductive InProcRefusal where
  | lookup (e : LookupError) | signature
  deriving DecidableEq

def inProcAuthorize (rt : Runtime) (lookup : Time → String → Answer IdentityRecord) (now : Time)
    (address : String) (nonce signature : Bytes) : Except InProcRefusal String :=
  match lookup now address with
  | .error e => .error (.lookup e)
  | .ok none => .error (.lookup .notFound)
  | .ok (some rec) =>
    if Crypto.verify rt rec.ed25519Public nonce signature then .ok rec.rxHex else .error .signature

namespace Node

variable (rt : Runtime) (n : Node)

def caching (cache : String → Option DarCacheEntry) : Registry :=
  ⟨n.net.dnsVerify, cache, some (n.recordSource rt)⟩

def fetchRelay : FetchRelay where
  records := n.records
  lookup := fun r now address => r.lookup now address
  onionPolicy := some fun r now rec => r.requiresOnion now rec
  fetchPolicy := some fun r now rec => r.addressUsable rt now rec

end Node

/-- What the domain asks of an address whose mailbox is read: nothing, or a valid address
credential. -/
def Countersigned (rt : Runtime) (r : Registry) (now : Time) (rec : IdentityRecord) : Prop :=
  ∀ dar, r.view now (domainOf rec.address) = some dar → Registry.UsableUnder rt r now rec dar

end Definitions

section Agreement

variable {rt : Runtime} {n : Node} {r : Registry} {now : Time} {address : String}
  {nonce signature : Bytes}

theorem addressUsable_eq_ok {rec : IdentityRecord} :
    (r.addressUsable rt now rec).1 = .ok () ↔ Countersigned rt r now rec := by
  unfold Countersigned
  cases hview : r.view now (domainOf rec.address) with
  | none =>
    have husable : (r.addressUsable rt now rec).1 = .ok () :=
      Registry.addressUsable_of_view_none hview
    simp [husable]
  | some dar =>
    rw [Registry.addressUsable_iff hview]
    simp

theorem Countersigned.agrees {s : Registry} (h : Registry.Agrees now r s) {rec : IdentityRecord} :
    Countersigned rt s now rec ↔ Countersigned rt r now rec := by
  unfold Countersigned Registry.UsableUnder
  simp only [h.view, h.verifies]

theorem requiresOnion_agrees (rec : IdentityRecord) : Registry.Agrees now r
    (r.requiresOnion now rec).2 := by
  unfold Registry.requiresOnion
  split
  · exact ⟨rfl, rfl, fun _ => rfl⟩
  · exact Registry.agrees_cachedLookupDAR r now (domainOf rec.address)

theorem resolveIdentity_fetchRelay (n : Node) (cache : String → Option DarCacheEntry) :
    resolveIdentity rt (n.fetchRelay rt).records ((n.fetchRelay rt).lookup (n.caching rt cache)) now
      address = n.lookup rt now address := by
  cases hrecords : n.records with
  | none =>
    change resolveIdentity rt n.records (n.lookup rt) now address = _
    rw [hrecords]
    rfl
  | some rs =>
    have hserving : n.serving rs = n := by
      unfold Node.serving
      rw [← hrecords]
    have hown : resolveIdentity rt (some rs) ((n.serving rs).lookup rt) now address =
        (n.serving rs).lookup rt now address := Node.resolveIdentity_eq_lookup rs
    rw [hserving] at hown
    change resolveIdentity rt n.records (n.lookup rt) now address = _
    rw [hrecords, hown]

theorem inProcAuthorize_eq_ok {lookup : Time → String → Answer IdentityRecord} {key : String} :
    inProcAuthorize rt lookup now address nonce signature = .ok key ↔
      ∃ rec, lookup now address = .ok (some rec) ∧
      Crypto.verify rt rec.ed25519Public nonce signature = true ∧
        rec.rxHex = key := by
  unfold inProcAuthorize
  split
  · next h => simp [h]
  · next h => simp [h]
  · next rec h =>
    simp only [h, Except.ok.injEq, Option.some.injEq, exists_eq_left']
    split
    · next hsig => simp [hsig]
    · next hsig => simp [hsig]

theorem checkPolicy_fetchRelay {cache : String → Option DarCacheEntry} {onion : String → Bool}
    (rec : IdentityRecord) : ((n.fetchRelay rt).checkPolicy
      ((n.fetchRelay rt).learnOnion ⟨n.caching rt cache, onion⟩ now rec) now rec).1 = .ok () ↔
        Countersigned rt (n.caching rt cache) now rec := by
  have hagrees :
      Registry.Agrees now (n.caching rt cache) ((n.caching rt cache).requiresOnion now rec).2 :=
    requiresOnion_agrees rec
  rw [← Countersigned.agrees hagrees, ← addressUsable_eq_ok]
  change Except.mapError FetchRefusal.policyPending
    (((n.caching rt cache).requiresOnion now rec).2.addressUsable rt now rec).1 = .ok () ↔ _
  cases (((n.caching rt cache).requiresOnion now rec).2.addressUsable rt now rec).1 with
  | ok u => simp [Except.mapError]
  | error e => simp [Except.mapError]

theorem openFetch_eq_ok {cache : String → Option DarCacheEntry} {onion : String → Bool}
    {rec : IdentityRecord} :
    ((n.fetchRelay rt).openFetch rt ⟨n.caching rt cache, onion⟩ now address).1 = .ok rec ↔
      n.lookup rt now address = .ok (some rec) ∧ Countersigned rt (n.caching rt cache) now rec := by
  unfold FetchRelay.openFetch
  rw [resolveIdentity_fetchRelay]
  split
  · next h => simp [h]
  · next h => simp [h]
  · next rec' h =>
    have hpolicy : ((n.fetchRelay rt).checkPolicy
        ((n.fetchRelay rt).learnOnion ⟨n.caching rt cache, onion⟩ now rec') now rec').1 = .ok () ↔
          Countersigned rt (n.caching rt cache) now rec' := checkPolicy_fetchRelay rec'
    dsimp only
    generalize ((n.fetchRelay rt).checkPolicy _ now rec').1 = verdict at hpolicy ⊢
    cases verdict with
    | error e =>
      simp only [reduceCtorEq, false_iff] at hpolicy
      simp only [h, Except.map, reduceCtorEq, Except.ok.injEq, Option.some.injEq, false_iff,
        not_and]
      rintro rfl
      exact hpolicy
    | ok u =>
      simp only [true_iff] at hpolicy
      simp only [h, Except.map, Except.ok.injEq, Option.some.injEq, iff_self_and]
      rintro rfl
      exact hpolicy

theorem authorizeFetch_eq_ok {cache : String → Option DarCacheEntry} {onion : String → Bool}
    {key : String} :
    ((n.fetchRelay rt).authorizeFetch rt ⟨n.caching rt cache, onion⟩ now address nonce
      signature).1 = .ok key ↔
      ∃ rec, n.lookup rt now address = .ok (some rec) ∧
      Countersigned rt (n.caching rt cache) now rec ∧
        Crypto.verify rt rec.ed25519Public nonce signature = true ∧ rec.rxHex = key := by
  unfold FetchRelay.authorizeFetch
  dsimp only
  constructor
  · intro h
    obtain ⟨rec, hopened, hsig⟩ := bind_eq_ok.mp h
    obtain ⟨hlookup, hpolicy⟩ := openFetch_eq_ok.mp hopened
    split at hsig
    · next hverify => exact ⟨rec, hlookup, hpolicy, hverify, Except.ok.inj hsig⟩
    · cases hsig
  · rintro ⟨rec, hlookup, hpolicy, hverify, rfl⟩
    refine bind_eq_ok.mpr ⟨rec, openFetch_eq_ok.mpr ⟨hlookup, hpolicy⟩, ?_⟩
    rw [if_pos hverify]

/-- The two ways into a mailbox authorize the same requests, for the same mailbox, exactly where
what a proven owner is let into in process meets the policy of its domain. -/
theorem owner_auth_agrees_iff (rt : Runtime) (n : Node) (cache : String → Option DarCacheEntry)
    (onion : String → Bool) (now : Time) (address : String) (nonce signature : Bytes) :
    (∀ key, inProcAuthorize rt (n.lookup rt) now address nonce signature = .ok key ↔
      ((n.fetchRelay rt).authorizeFetch rt ⟨n.caching rt cache, onion⟩ now address nonce
        signature).1 = .ok key) ↔
    ∀ rec, n.lookup rt now address = .ok (some rec) →
      Crypto.verify rt rec.ed25519Public nonce signature = true →
      Countersigned rt (n.caching rt cache) now rec := by
  constructor
  · intro h rec hlookup hverify
    have hinproc := inProcAuthorize_eq_ok.mpr ⟨rec, hlookup, hverify, rfl⟩
    obtain ⟨rec', hlookup', hpolicy, -⟩ := authorizeFetch_eq_ok.mp ((h _).mp hinproc)
    rw [hlookup, Except.ok.injEq, Option.some.injEq] at hlookup'
    rwa [hlookup']
  · intro h key
    rw [inProcAuthorize_eq_ok, authorizeFetch_eq_ok]
    constructor
    · rintro ⟨rec, hlookup, hverify, hkey⟩
      exact ⟨rec, hlookup, h rec hlookup hverify, hverify, hkey⟩
    · rintro ⟨rec, hlookup, -, hverify, hkey⟩
      exact ⟨rec, hlookup, hverify, hkey⟩

end Agreement

/-! A node that stores one record and one authority record. -/
namespace Stored

def net : Network where
  resolveDNS := fun _ _ => .error .notFound
  dnsVerify := fun _ _ _ => true
  parseRelayHint := fun _ => none
  connect := fun _ _ => false
  connected := fun _ => []
  clientGetDAR := fun _ _ _ => none
  clientGetIdentity := fun _ _ _ => none
  clientGetRemoval := fun _ _ _ => none
  clientGetBlocklist := fun _ _ _ => none

variable (rt : Runtime) (pb : Pb.IdentityRecord) (dar : Pb.DomainAuthorityRecord)

def records : RecordStore :=
  (RecordStore.empty.put .identity pb.address (rt.identityRecord.marshal pb)).put .dar dar.domain
    (rt.domainAuthorityRecord.marshal dar)

def node : Node := ⟨"host", fun _ => none, [], net, some (records rt pb dar)⟩

variable {rt pb dar}

theorem lookup_node (hchain : pb.rotationChain = []) (hrecovery : pb.recoveryEd25519PublicKey = [])
    (hforward : pb.forwardTo = "") (hexpires : pb.expiresAt = 0) (now : Time) :
    (node rt pb dar).lookup rt now pb.address = .ok (some (.ofMessage pb [])) := by
  have hstored : (records rt pb dar).getIdentity rt pb.address = some (.ofMessage pb []) := by
    unfold records RecordStore.getIdentity
    rw [RecordStore.get_put_of_prefix_ne _ _ (by decide), RecordStore.get_put_self]
    exact IdentityRecord.fromProtoBytes_plain hchain hrecovery hforward
  exact (Node.lookup_own (n := node rt pb dar) hstored).mpr
    ⟨rfl, IdentityRecord.not_expired_of_unset hexpires⟩

theorem view_node (now : Time) :
    ((node rt pb dar).caching rt fun _ => none).view now dar.domain = some (.fromProto dar) := by
  have hstored : (records rt pb dar).getDAR rt dar.domain = some (.fromProto dar) := by
    unfold records RecordStore.getDAR
    rw [RecordStore.get_put_self]
    exact DomainAuthorityRecord.fromProtoBytes_marshal rt dar
  have hsource : ((node rt pb dar).caching rt fun _ => none).lookupDomainAuthority now dar.domain =
      .ok (some (.fromProto dar)) := by
    change (node rt pb dar).darForSource rt now dar.domain = _
    unfold Node.darForSource
    have hown : ((node rt pb dar).records.bind fun rs => rs.getDAR rt dar.domain) =
        some (.fromProto dar) := hstored
    rw [hown]
  unfold Registry.view
  rw [Registry.cachedLookupDAR_stale rfl, hsource]
  rfl

end Stored

/-! A domain that wants every address countersigned, and an address that is not. -/
namespace Pending

def authority : Pb.DomainAuthorityRecord := { plainAuthority "example.org" 1 with policyFlags := 1 }

def mallory : Pb.IdentityRecord := plainRecord "mallory@example.org" 2

def held : IdentityRecord := .ofMessage mallory []

noncomputable def runtime : Runtime := idealRuntime [keyOf 2] []

noncomputable def node : Node := Stored.node runtime mallory authority

theorem lookup_held (now : Time) : node.lookup runtime now "mallory@example.org" = .ok
    (some held) :=
  Stored.lookup_node rfl rfl rfl rfl now

theorem view_authority (now : Time) :
    (node.caching runtime fun _ => none).view now "example.org" = some (.fromProto authority) :=
  Stored.view_node now

theorem not_countersigned (now : Time) : ¬ Countersigned runtime
    (node.caching runtime fun _ => none) now held := by
  intro h
  have hdomain : domainOf held.address = "example.org" := by decide
  rcases h _ ((congrArg _ hdomain).trans (view_authority now)) with ⟨hpolicy, -⟩ | ⟨hcred, -⟩
  · exact absurd hpolicy (by decide)
  · cases hcred

/-- The owner is let into its mailbox in process, and kept out of it over the stream. -/
theorem let_in_by_one_path :
    inProcAuthorize runtime (node.lookup runtime) default "mallory@example.org" (keyOf 5)
      (List.replicate 64 0) =
      .ok held.rxHex ∧
    ∀ key, ((node.fetchRelay runtime).authorizeFetch runtime
      ⟨node.caching runtime fun _ => none, fun _ => false⟩
      default "mallory@example.org" (keyOf 5) (List.replicate 64 0)).1 ≠ .ok key := by
  have hverify : Crypto.verify runtime held.ed25519Public (keyOf 5) (List.replicate 64 0) =
      true := by
    have hkey : held.ed25519Public = keyOf 2 := rfl
    simp [Crypto.verify, Crypto.ed25519PublicKeySize, Crypto.ed25519SignatureSize, hkey, runtime,
      idealRuntime, Ideal.tableVerify]
  refine ⟨inProcAuthorize_eq_ok.mpr ⟨held, lookup_held default, hverify, rfl⟩, fun key hauth => ?_⟩
  obtain ⟨rec, hlookup, hpolicy, -⟩ := authorizeFetch_eq_ok.mp hauth
  rw [lookup_held, Except.ok.injEq, Option.some.injEq] at hlookup
  rw [← hlookup] at hpolicy
  exact not_countersigned default hpolicy

end Pending

end Dmcn
