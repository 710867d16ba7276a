import OpenDmcn.Node.Resolver
import OpenDmcn.Identity.ChainSound

/-! Joining the federation (`join.go`, `credentialset.go`). A peer presents its credentials over an
authenticated connection; what verifies is kept for the life of the connection, in one of two
buckets by its trust root: the credentials of domains, one for each, and the one credential the
configured operator signed. The gates of the node and of its relay ask these buckets and nothing
else. -/

namespace Dmcn

open Go Guard

namespace Credential

def hasGrant (c : Credential) (g : String) : Bool := Strings.contains c.grants g

def coversDomain (rt : Runtime) (c : Credential) (target : String) : Bool :=
  target != "" && scopeCovers rt c.domain target

end Credential

inductive FleetCredentialError where
  | noOperatorKey | signature | notOperator | expired | notYetEffective
  | capability (e : CredentialError)
  deriving DecidableEq

def verifyFleetCredential (rt : Runtime) (c : Credential) (operatorPub : Bytes) (now : Time) :
    Except FleetCredentialError Unit := do
  require (operatorPub.length = Crypto.ed25519PublicKeySize) .noOperatorKey
  require (c.verifySignature rt) .signature
  require (c.issuerPub = operatorPub) .notOperator
  refuse (!c.notAfter.isZero && now.after (c.notAfter.add credSkew)) .expired
  refuse (!c.effectiveFrom.isZero && (now.add credSkew).before c.effectiveFrom) .notYetEffective
  wrap .capability (authorizes rt rootGrants "" c.domain c)

inductive BundledError where
  | domainMismatch | anchor (e : AnchorError)
  deriving DecidableEq

def Registry.verifyCredentialWithDAR (rt : Runtime) (r : Registry) (now : Time) (cred : Credential)
    (dar : DomainAuthorityRecord) : Except BundledError Unit := do
  require (dar.domain = cred.domain) .domainMismatch
  wrap .anchor (r.checkAnchored rt now cred (some dar))

structure CredEntry where
  cred : Credential
  at_ : Time

structure CredentialSet where
  m : PeerID → List (String × CredEntry)
  fleet : PeerID → Option CredEntry

namespace CredentialSet

def new : CredentialSet := ⟨fun _ => [], fun _ => none⟩

def add (rt : Runtime) (s : CredentialSet) (id : PeerID) (cred : Credential) (now : Time) :
    CredentialSet :=
  let key := Strings.toLower rt.unicode cred.domain
  { s with m := Function.update s.m id ((key, ⟨cred, now⟩) :: (s.m id).filter fun e => e.1 ≠ key) }

def addFleet (s : CredentialSet) (id : PeerID) (cred : Credential) (now : Time) : CredentialSet :=
  { s with fleet := Function.update s.fleet id (some ⟨cred, now⟩) }

def remove (s : CredentialSet) (id : PeerID) : CredentialSet :=
  ⟨Function.update s.m id [], Function.update s.fleet id none⟩

def has (s : CredentialSet) (id : PeerID) : Bool := !(s.m id).isEmpty || (s.fleet id).isSome

def hasFleetRole (s : CredentialSet) (id : PeerID) (role : String) : Bool :=
  (s.fleet id).any fun e => e.cred.hasRole role

def hasGrant (rt : Runtime) (s : CredentialSet) (id : PeerID) (grant domain : String) : Bool :=
  (s.m id).any fun e => e.2.cred.hasGrant grant && e.2.cred.coversDomain rt domain

def hasFleetGrant (s : CredentialSet) (id : PeerID) (grant : String) : Bool :=
  (s.fleet id).any fun e => e.cred.hasGrant grant

end CredentialSet

structure CredentialBundle where
  credential : Option Pb.Credential
  dar : Option Pb.DomainAuthorityRecord

/-- What `JoinRequest` and `JoinResponse` both carry: a list of pairs, and one pair for a peer that
knows only one. -/
structure JoinOffer where
  credential : Option Pb.Credential
  dar : Option Pb.DomainAuthorityRecord
  bundles : List CredentialBundle

def JoinOffer.pairs (o : JoinOffer) : List CredentialBundle :=
  if o.bundles.isEmpty then [⟨o.credential, o.dar⟩] else o.bundles

/-- What a node brings to the handshake. `extractPublicKey` and `multiaddrIP` are libp2p's. -/
structure JoinNode where
  rt : Runtime
  operatorPub : Bytes
  registry : Registry
  /-- the configured allow-set, when there is one -/
  static : Option (PeerID → Bool)
  extractPublicKey : PeerID → Option Bytes
  /-- the IPv4 address of a multiaddr, when it has one -/
  multiaddrIP : String → Option String
  credential : Option Credential
  joinBundles : List (Option Credential × Option DomainAuthorityRecord)

inductive Admission where
  | fleet (cred : Credential)
  | domain (cred : Credential)
  deriving DecidableEq

inductive AdmitError where
  | missingCredential | extractKey | subjectMismatch | fleet (e : FleetCredentialError) | missingDAR
  | bundled (e : BundledError) | addressMismatch (want got : String)
  deriving DecidableEq

structure JoinResponse where
  accepted : Bool
  error : Option AdmitError
  offer : JoinOffer

def isInfraRoles (roles : List String) : Bool := roles.any fun r => r == roleNode || r == roleBridge

namespace JoinNode

variable (n : JoinNode)

def ownOffer : JoinOffer :=
  let bundles := n.joinBundles.filterMap fun b =>
    b.1.map fun c => { credential := some c.toProto, dar := b.2.map DomainAuthorityRecord.toProto :
      CredentialBundle }
  ⟨(bundles.head?.bind (·.credential)), bundles.head?.bind (·.dar), bundles⟩

def checkMultiaddrAttr (attrs : List (String × String)) (observed : Option String) :
    Except AdmitError Unit :=
  let ip := (attrs.lookup "ip").getD ""
  let m := (attrs.lookup "multiaddr").getD ""
  let want := if ip != "" then ip else if m != "" then (n.multiaddrIP m).getD "" else ""
  if want == "" then .ok ()
  else
    match observed with
    | none => .ok ()
    | some got => require (got = want) (.addressMismatch want got)

def checkInfra (cred : Credential) (observed : Option String) : Except AdmitError Unit :=
  if isInfraRoles cred.roles then n.checkMultiaddrAttr cred.attributes observed else .ok ()

def admitPresented (now : Time) (p : PeerID) (observed : Option String) (b : CredentialBundle) :
    Except AdmitError Admission := do
  let credPb ← need b.credential .missingCredential
  let cred := Credential.fromProto credPb
  let raw ← need (n.extractPublicKey p) .extractKey
  require (raw = cred.subject) .subjectMismatch
  if n.operatorPub.length = Crypto.ed25519PublicKeySize ∧ cred.issuerPub = n.operatorPub then
    wrap .fleet (verifyFleetCredential n.rt cred n.operatorPub now)
    n.checkInfra cred observed
    pure (.fleet cred)
  else
    let darPb ← need b.dar .missingDAR
    wrap .bundled (n.registry.verifyCredentialWithDAR n.rt now cred (.fromProto darPb))
    n.checkInfra cred observed
    pure (.domain cred)

def keep (s : CredentialSet) (p : PeerID) (now : Time) : Admission → CredentialSet
  | .fleet c => s.addFleet p c now
  | .domain c => s.add n.rt p c now

def allowPeer (s : CredentialSet) (p : PeerID) : Bool := n.static.any (· p) || s.has p

noncomputable def lone : JoinNode :=
  ⟨idealRuntime [] [], [], .new (fun _ _ _ => false) none, none, fun _ => none, fun _ =>
    none, none, []⟩

end JoinNode

end Dmcn
