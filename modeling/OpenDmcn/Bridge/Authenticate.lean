import OpenDmcn.Bridge.Address
import OpenDmcn.Bridge.Types
import OpenDmcn.Lib.MailAddress

/-! What the bridge finds out about a mail that comes in (`bridge/auth_dns.go`,
`bridge/classify.go`): SPF for the envelope sender, DKIM for its signatures, DMARC for the domain of
its `From` header, and the tier that follows from these. What DNS and the libraries for SPF, DKIM
and DMARC answer is a parameter. -/

namespace Dmcn.Bridge

open Go

inductive SPFResult where
  | none | pass | fail | softFail | neutral
  deriving DecidableEq

inductive DKIMResult where
  | none | pass | fail
  deriving DecidableEq

inductive DMARCResult where
  | none | pass | fail
  deriving DecidableEq

inductive DMARCPolicy where
  | none | quarantine | reject
  deriving DecidableEq

inductive BridgeTrustTier where
  | unspecified | verifiedLegacy | unverifiedLegacy | suspicious
  deriving DecidableEq

structure AuthResult where
  spf : SPFResult
  dkim : DKIMResult
  dmarc : DMARCResult
  dmarcPolicy : DMARCPolicy
  senderIP : String
  deriving DecidableEq

structure Verification where
  domain : String
  valid : Bool

structure DmarcRecord where
  policy : String
  spfAlignment : String
  dkimAlignment : String

abbrev Header := String → List Mail.Text

def Header.get (h : Header) (key : String) : Mail.Text := (h key).headD []

structure AuthRuntime where
  unicode : Unicode
  addr : Mail.AddrRuntime
  /-- `mail.ReadMessage`, of which only the header is used. -/
  readMessage : Bytes → Option Header
  /-- The host of `net.SplitHostPort`. -/
  splitHostPort : String → Option String
  /-- The result for the address, the name given in HELO and the sender, and whether an error came
  with it. -/
  spfCheck : Bytes → String → String → String × Bool
  dkimVerify : Bytes → List Verification × Bool
  dmarcLookup : String → Option DmarcRecord
  effectiveTLDPlusOne : String → Option String

section Verify

variable (rt : AuthRuntime)

def mapSPFResult (r : String) : SPFResult :=
  if r = "pass" then .pass
  else if r = "fail" then .fail
  else if r = "softfail" then .softFail
  else if r = "neutral" then .neutral
  else .none

def mapDMARCPolicy (p : String) : DMARCPolicy :=
  if p = "reject" then .reject else if p = "quarantine" then .quarantine else .none

def parseHost (addr : String) : Option Bytes :=
  if addr = "" then none else rt.addr.parseIP ((rt.splitHostPort addr).getD addr)

def headerFromDomain (data : Bytes) : String :=
  match rt.readMessage data with
  | none => ""
  | some h =>
    match Mail.parseSingleAddress rt.addr (h.get "From") with
    | none => ""
    | some a => domainOf rt.unicode a.address

def verifyDKIM (data : Bytes) : List String × DKIMResult :=
  let (verifs, failed) := rt.dkimVerify data
  if failed ∧ verifs.length = 0 then ([], .none)
  else if verifs.length = 0 then ([], .none)
  else
    let passDomains := (verifs.filter fun v => v.valid).map fun v =>
      Strings.toLower rt.unicode v.domain
    if passDomains.length > 0 then (passDomains, .pass) else ([], .fail)

def orgDomain (host : String) : String := (rt.effectiveTLDPlusOne host).getD host

def alignmentStrict : String := "s"

def domainsAligned (a b mode : String) : Bool :=
  let a := Strings.toLower rt.unicode (Strings.trimSuffix a ".")
  let b := Strings.toLower rt.unicode (Strings.trimSuffix b ".")
  if a = "" ∨ b = "" then false
  else if a = b then true
  else if mode = alignmentStrict then false
  else orgDomain rt a = orgDomain rt b

def aligned (rec : DmarcRecord) (envelopeDomain fromDomain : String) (spfRes : SPFResult)
    (dkimPassDomains : List
    String) :
    Bool :=
  (spfRes == .pass && domainsAligned rt envelopeDomain fromDomain rec.spfAlignment) ||
    dkimPassDomains.any fun d => domainsAligned rt d fromDomain rec.dkimAlignment

def evalDMARC (envelopeDomain fromDomain : String) (spfRes : SPFResult)
    (dkimPassDomains : List String) :
    DMARCResult × DMARCPolicy :=
  if fromDomain = "" then (.none, .none)
  else
    match rt.dmarcLookup fromDomain with
    | none => (.none, .none)
    | some rec =>
      (if aligned rt rec envelopeDomain fromDomain spfRes dkimPassDomains then .pass else .fail,
        mapDMARCPolicy rec.policy)

def checkSPF (senderIP from' : String) : SPFResult :=
  let envelopeDomain := domainOf rt.unicode from'
  match parseHost rt senderIP with
  | none => .none
  | some ip =>
    if envelopeDomain = "" then .none
    else
      let (r, failed) := rt.spfCheck ip envelopeDomain (Strings.trim from' ['<', '>'])
      if ¬ failed ∨ r ≠ "" then mapSPFResult r else .none

def verify (senderIP from' : String) (data : Bytes) : AuthResult :=
  let spf := checkSPF rt senderIP from'
  let (dkimPassDomains, dkim) := verifyDKIM rt data
  let (dmarc, dmarcPolicy) :=
    evalDMARC rt (domainOf rt.unicode from') (headerFromDomain rt data) spf dkimPassDomains
  ⟨spf, dkim, dmarc, dmarcPolicy, senderIP⟩

end Verify

def classify (result : AuthResult) : BridgeTrustTier :=
  if result.dkim = .pass ∧ result.dmarc = .pass then .verifiedLegacy
  else if result.dkim = .fail ∨ result.dmarc = .fail ∨ result.spf = .fail then .suspicious
  else .unverifiedLegacy

def shouldReject (result : AuthResult) : Bool := result.dmarc = .fail ∧ result.dmarcPolicy = .reject

section Verdict

variable {rt : AuthRuntime} {data : Bytes}

structure Publishes (rt : AuthRuntime) (domain : String) (rec : DmarcRecord) : Prop where
  nonempty : domain ≠ ""
  record : rt.dmarcLookup domain = some rec

def AlignedWith (rt : AuthRuntime) (senderIP from' : String) (data : Bytes) (domain : String)
    (rec : DmarcRecord) :
    Prop :=
  aligned rt rec (domainOf rt.unicode from') domain (checkSPF rt senderIP from')
    (verifyDKIM rt data).1 = true

theorem verify_of_publishes (senderIP from' : String) {rec : DmarcRecord}
    (h : Publishes rt (headerFromDomain rt data)
    rec) :
    (verify rt senderIP from' data).dmarcPolicy = mapDMARCPolicy rec.policy ∧
      ((verify rt senderIP from' data).dmarc = .pass ↔
        AlignedWith rt senderIP from' data (headerFromDomain rt data) rec) ∧
      ((verify rt senderIP from' data).dmarc = .fail ↔
        ¬ AlignedWith rt senderIP from' data (headerFromDomain rt data) rec) := by
  have heval : evalDMARC rt (domainOf rt.unicode from') (headerFromDomain rt data)
      (checkSPF rt senderIP from')
      (verifyDKIM rt data).1 =
        (if aligned rt rec (domainOf rt.unicode from') (headerFromDomain rt data)
        (checkSPF rt senderIP from') (verifyDKIM rt data).1 then .pass else .fail,
          mapDMARCPolicy rec.policy) := by
    unfold evalDMARC
    rw [if_neg h.nonempty, h.record]
  unfold verify AlignedWith
  dsimp only
  rw [heval]
  by_cases haligned : aligned rt rec (domainOf rt.unicode from') (headerFromDomain rt data)
      (checkSPF rt senderIP from') (verifyDKIM rt data).1 = true
  · simp [haligned]
  · simp [haligned]

theorem shouldReject_of_publishes {senderIP from' : String} {rec : DmarcRecord}
    (h : Publishes rt (headerFromDomain rt
    data) rec)
    (hpolicy : mapDMARCPolicy rec.policy = .reject)
    (hfails : ¬ AlignedWith rt senderIP from' data (headerFromDomain rt data) rec) :
    shouldReject (verify rt senderIP from' data) = true := by
  obtain ⟨hrecord, _, hfail⟩ := verify_of_publishes senderIP from' h
  simp [shouldReject, hfail.mpr hfails, hrecord, hpolicy]

theorem publishes_of_pass {senderIP from' : String}
    (h : (verify rt senderIP from' data).dmarc = .pass) :
    ∃ rec, Publishes rt (headerFromDomain rt data) rec ∧
      AlignedWith rt senderIP from' data (headerFromDomain rt data) rec := by
  have heval : (evalDMARC rt (domainOf rt.unicode from') (headerFromDomain rt data)
    (checkSPF rt senderIP from')
    (verifyDKIM rt data).1).1 = .pass := h
  unfold evalDMARC at heval
  by_cases hempty : headerFromDomain rt data = ""
  · simp [hempty] at heval
  · rw [if_neg hempty] at heval
    cases hlookup : rt.dmarcLookup (headerFromDomain rt data) with
    | none => simp [hlookup] at heval
    | some rec =>
      have hpub : Publishes rt (headerFromDomain rt data) rec := ⟨hempty, hlookup⟩
      exact ⟨rec, hpub, ((verify_of_publishes senderIP from' hpub).2.1).mp h⟩

theorem classify_eq_verified {result : AuthResult} (h : classify result = .verifiedLegacy) :
    result.dmarc = .pass := by
  unfold classify at h
  split at h
  · next hpass => exact hpass.2
  · split at h
    · cases h
    · cases h

end Verdict

end Dmcn.Bridge
