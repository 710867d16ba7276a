import OpenDmcn.Lib.Base64
import OpenDmcn.Lib.Hex
import OpenDmcn.Web.Pins

/-! The verdict on a sender (`crypto/senderTrust.ts`, `trust/pinnedKey.ts`, `trust/category.ts`).
The key that was pinned for a contact is compared three times: by the reader with the key that
signed a message, by the composer with the text of the directory, and by the inbox, in hexadecimal,
without the directory. -/

namespace Dmcn.Web.Trust

open Go

section Base64

def isAsciiSpace (c : Char) : Bool := c.toNat ∈ [9, 10, 12, 13, 32]

def unpad (data : List Char) : List Char :=
  match data.reverse with
  | '=' :: '=' :: rest => rest.reverse
  | '=' :: rest => rest.reverse
  | _ => data

def bytesOfDigits : List ℕ → Bytes
  | w :: x :: y :: z :: rest =>
    Base64.byte₁ w x :: Base64.byte₂ x y :: Base64.byte₃ y z :: bytesOfDigits rest
  | [w, x, y] => [Base64.byte₁ w x, Base64.byte₂ x y]
  | [w, x] => [Base64.byte₁ w x]
  | _ => []

def fromBase64 (b64 : String) : Option Bytes :=
  let data := b64.toList.filter fun c => !isAsciiSpace c
  let data := if data.length % 4 = 0 then unpad data else data
  if data.length % 4 = 1 then none else (data.mapM Base64.std.value).map bytesOfDigits

end Base64

section Directory

/-- What of a directory answer the verdict reads. A legacy answer has no key of its own. -/
structure IdentityLookupResponse where
  ed25519Pub : Option String
  x25519Pub : String
  fingerprint : String
  verifiedTier : Option ℕ
  identityUnverifiable : Option Bool
  legacy : Option Bool
  adminKeyCustody : Option Bool
  deriving DecidableEq

def directoryFacts (dir : IdentityLookupResponse) : PinnedFacts :=
  if dir.legacy = some true ∨ dir.ed25519Pub.getD "" = "" then absentIdentityFacts
  else ⟨dir.ed25519Pub.getD "", dir.x25519Pub, dir.adminKeyCustody = some true, none⟩

def changedFacts (pinned observed : PinnedFacts) : List String :=
  if (pinned.noIdentity = some true) ≠ (observed.noIdentity = some true) then ["DMCN identity"]
  else
    (if pinned.ed25519Pub ≠ "" ∧ pinned.ed25519Pub ≠ observed.ed25519Pub then ["signing key"]
      else []) ++
      (if pinned.x25519Pub ≠ "" ∧ pinned.x25519Pub ≠ observed.x25519Pub then ["encryption key"]
        else []) ++
      if pinned.adminKeyCustody ≠ observed.adminKeyCustody then ["key custody by their provider"]
        else []

theorem unchanged_iff (pinned observed : PinnedFacts) :
    unchanged pinned observed = true ↔ changedFacts pinned observed = [] := by
  unfold unchanged changedFacts
  rw [decide_eq_true_iff]
  by_cases hidentity : (pinned.noIdentity = some true) = (observed.noIdentity = some true)
  · rw [if_neg (not_not.mpr hidentity)]
    simp only [hidentity, true_and, List.append_eq_nil_iff]
    by_cases hed : pinned.ed25519Pub = "" <;> by_cases hx : pinned.x25519Pub = "" <;>
      simp [hed, hx, and_assoc]
  · rw [if_pos hidentity]
    simp [hidentity]

end Directory

section Verdict

inductive SenderTrustKind where
  | allowlisted | domainVerified | unknownPending | keyMismatch | keyChanged | recordChanged
  | identityUnverifiable
  | directoryMissing
  deriving DecidableEq

structure SenderTrust where
  kind : SenderTrustKind
  provenance : Option TrustProvenance
  fingerprint : Option String
  reason : Option String
  deriving DecidableEq

def tierDomainDNS : ℕ := 2

def base64Eq (rawKey : Bytes) (b64 : String) : Bool := b64 ≠ "" ∧ fromBase64 b64 = some rawKey

def signingKeyChanged : String :=
  "this contact’s signing key has changed — re-verify before trusting"

def encryptionKeyChanged : String :=
  "this contact’s encryption key has changed — re-verify before trusting"

def recordChangedReason (moved : List String) : String :=
  "this contact’s " ++ String.intercalate " and " moved ++ " changed since you verified them"

def pinTrust (senderPublicKey : Bytes) (pinned : PinnedFacts) (dir : IdentityLookupResponse) :
    Option SenderTrust :=
  if !base64Eq senderPublicKey pinned.ed25519Pub then
    some ⟨.keyChanged, none, dir.fingerprint, signingKeyChanged⟩
  else if pinned.x25519Pub ≠ "" ∧ pinned.x25519Pub ≠ dir.x25519Pub then
    some ⟨.keyChanged, none, dir.fingerprint, encryptionKeyChanged⟩
  else
    let moved := changedFacts pinned (directoryFacts dir)
    if moved ≠ [] then some ⟨.recordChanged, none, dir.fingerprint, recordChangedReason moved⟩
      else none

def evaluateSenderTrust (senderPublicKey : Bytes) (contact : Option ContactRecord)
    (lookup : Option IdentityLookupResponse) : SenderTrust :=
  match lookup with
  | none => ⟨.directoryMissing, none, none, "sender not found in the directory"⟩
  | some dir =>
    if dir.legacy = some true
      then ⟨.directoryMissing, none, none, "sent from outside DMCN, via a bridge"⟩
    else if !base64Eq senderPublicKey (dir.ed25519Pub.getD "") then
      ⟨.keyMismatch, none, dir.fingerprint, "signing key does not match the directory"⟩
    else if dir.identityUnverifiable = some true then
      ⟨.identityUnverifiable, none, dir.fingerprint, "identity revoked or unverifiable"⟩
    else
      match (contact.bind contactFacts).bind fun pinned => pinTrust senderPublicKey pinned dir with
      | some changed => changed
      | none =>
        match contact with
        | some c => ⟨.allowlisted, some (c.provenance.getD .userApproved), dir.fingerprint, none⟩
        | none =>
          if dir.verifiedTier.getD 0 ≥ tierDomainDNS
            then ⟨.domainVerified, none, dir.fingerprint, none⟩
          else ⟨.unknownPending, none, dir.fingerprint, none⟩

end Verdict

section Category

structure JsText where
  toLowerCase : String → String
  trim : String → String
  lower_hex : ∀ b : Bytes, toLowerCase (Hex.encode b) = Hex.encode b

inductive FilterMode where
  | deny | allow
  deriving DecidableEq

structure FilterList where
  mode : Option FilterMode
  domains : Option (List String)
  senders : Option (List String)
  senderKeys : Option (List String)

inductive SenderCategory where
  | allowlisted | pending | blocked
  deriving DecidableEq

variable (t : JsText)

def domainOf (addr : String) : String :=
  String.ofList ((t.toLowerCase (t.trim addr)).toList.reverse.takeWhile (· ≠ '@')).reverse

def hexOfB64 (b64 : String) : String := (fromBase64 b64).elim "" Hex.encode

def filterBlocks (filter : Option FilterList) (senderAddress senderKeyHex : String) : Bool :=
  match filter with
  | none => false
  | some filter =>
    let keyHex := t.toLowerCase senderKeyHex
    if keyHex ≠ "" ∧ (filter.senderKeys.getD []).any fun k => t.toLowerCase k = keyHex then true
    else if filter.mode.getD .deny ≠ .deny then false
    else
      let addr := t.toLowerCase (t.trim senderAddress)
      let dom := domainOf t senderAddress
      ((filter.senders.getD []).any fun s => t.toLowerCase (t.trim s) = addr) ||
        (filter.domains.getD []).any fun d => t.toLowerCase (t.trim d) = dom

def categorizeSender (senderAddress senderKeyHex : String) (contact : Option ContactRecord)
    (filter : Option FilterList) : SenderCategory :=
  if filterBlocks t filter senderAddress senderKeyHex then .blocked
  else
    match contact with
    | some c =>
      if c.ed25519Pub.getD "" ≠ "" ∧ hexOfB64 (c.ed25519Pub.getD "") ≠ t.toLowerCase senderKeyHex
        then .pending
      else .allowlisted
    | none => .pending

end Category

section Alike

structure Publishes (dir : IdentityLookupResponse) (key : Bytes) : Prop where
  native : dir.legacy ≠ some true
  listed : dir.ed25519Pub.getD "" ≠ ""
  same : fromBase64 (dir.ed25519Pub.getD "") = some key

def ReaderReports (key : Bytes) (contact : Option ContactRecord) (dir : IdentityLookupResponse) :
    Prop :=
  (evaluateSenderTrust key contact dir).kind = .keyChanged ∧
    (evaluateSenderTrust key contact dir).reason = some signingKeyChanged

def ComposerReports (contact : Option ContactRecord) (dir : IdentityLookupResponse) : Prop :=
  checkPin contact (directoryFacts dir) = .changed ∧ ∃ pinned, contact.bind contactFacts =
    some pinned ∧
    ("signing key" ∈ changedFacts pinned (directoryFacts dir) ∨
      "DMCN identity" ∈ changedFacts pinned (directoryFacts dir))

structure JudgedAlike (t : JsText) (senderAddress : String) (key : Bytes)
    (contact : Option ContactRecord) (dir : IdentityLookupResponse) (filter : Option FilterList) :
    Prop where
  reported : ReaderReports key contact dir ↔ ComposerReports contact dir
  demoted : ReaderReports key contact dir →
    categorizeSender t senderAddress (Hex.encode key) contact filter ≠ .allowlisted

/-- A row that all three can judge: it pins nothing, or the text that the directory has; or a text
of another key, beside an answer that is verified. -/
def Comparable (key : Bytes) (dir : IdentityLookupResponse) : Option ContactRecord → Prop
  | none => True
  | some c =>
    (c.noIdentity ≠ some true ∧
      (c.ed25519Pub.getD "" = "" ∨ c.ed25519Pub.getD "" = dir.ed25519Pub.getD "")) ∨
      (dir.identityUnverifiable ≠ some true ∧ c.ed25519Pub.getD "" ≠ "" ∧
        fromBase64 (c.ed25519Pub.getD "") ≠ some key)

variable {dir : IdentityLookupResponse} {key : Bytes} {contact : Option ContactRecord}

theorem base64Eq_iff {b64 : String} : base64Eq key b64 = true ↔ b64 ≠ "" ∧
    fromBase64 b64 = some key :=
  decide_eq_true_iff

theorem Publishes.base64Eq (h : Publishes dir key) : base64Eq key (dir.ed25519Pub.getD "") = true :=
  base64Eq_iff.mpr ⟨h.listed, h.same⟩

theorem Publishes.directoryFacts (h : Publishes dir key) : directoryFacts dir =
    ⟨dir.ed25519Pub.getD "", dir.x25519Pub, dir.adminKeyCustody = some true, none⟩ := by
  unfold Trust.directoryFacts
  exact if_neg (not_or.mpr ⟨h.native, h.listed⟩)

theorem encryptionKeyChanged_ne : encryptionKeyChanged ≠ signingKeyChanged := by decide

theorem pinTrust_iff {pinned : PinnedFacts} :
    (∃ trust, pinTrust key pinned dir = some trust ∧
        trust.kind = .keyChanged ∧ trust.reason = some signingKeyChanged) ↔
      base64Eq key pinned.ed25519Pub = false := by
  unfold pinTrust
  by_cases hsame : base64Eq key pinned.ed25519Pub = true
  · rw [hsame, Bool.not_true, if_neg Bool.false_ne_true]
    refine iff_of_false ?_ (by simp)
    rintro ⟨trust, htrust, hkind, hreason⟩
    split at htrust
    · cases htrust
      exact encryptionKeyChanged_ne (Option.some.inj hreason)
    · dsimp only at htrust
      split at htrust
      · cases htrust
        exact nomatch hkind
      · exact nomatch htrust
  · rw [Bool.not_eq_true] at hsame
    rw [hsame, Bool.not_false, if_pos rfl]
    exact iff_of_true ⟨_, rfl, rfl, rfl⟩ rfl

theorem readerReports_iff (h : Publishes dir key) : ReaderReports key contact dir ↔
    dir.identityUnverifiable ≠ some true ∧
      ∃ pinned, contact.bind contactFacts = some pinned ∧ base64Eq key pinned.ed25519Pub =
      false := by
  have hkey : ¬ (!Trust.base64Eq key (dir.ed25519Pub.getD "")) = true := by rw [h.base64Eq]; decide
  unfold ReaderReports evaluateSenderTrust
  dsimp only
  rw [if_neg h.native, if_neg hkey]
  by_cases hunverifiable : dir.identityUnverifiable = some true
  · rw [if_pos hunverifiable]
    exact iff_of_false (fun hreports => nomatch hreports.1) fun hpin => hpin.1 hunverifiable
  · rw [if_neg hunverifiable]
    cases hchanged : (contact.bind contactFacts).bind fun pinned => pinTrust key pinned dir with
    | some changed =>
      obtain ⟨pinned, hpinned, htrust⟩ := Option.bind_eq_some_iff.mp hchanged
      constructor
      · intro hreports
        exact ⟨hunverifiable, pinned, hpinned, pinTrust_iff.mp ⟨changed, htrust, hreports⟩⟩
      · rintro ⟨-, pinned', hpinned', hsame⟩
        rw [hpinned] at hpinned'
        obtain ⟨trust, htrust', hreports⟩ := pinTrust_iff.mpr (Option.some.inj hpinned' ▸ hsame)
        rw [htrust] at htrust'
        exact Option.some.inj htrust' ▸ hreports
    | none =>
      refine iff_of_false ?_ ?_
      · rintro ⟨hkind, -⟩
        cases contact with
        | some c => exact nomatch hkind
        | none =>
          dsimp only at hkind
          split at hkind
          · exact nomatch hkind
          · exact nomatch hkind
      · rintro ⟨-, pinned, hpinned, hsame⟩
        obtain ⟨trust, htrust, -⟩ := pinTrust_iff.mpr hsame
        rw [hpinned, Option.bind_some, htrust] at hchanged
        exact nomatch hchanged

theorem contactFacts_cases (c : ContactRecord) :
    (c.noIdentity = some true ∧ contactFacts c = some absentIdentityFacts) ∨
      (c.noIdentity ≠ some true ∧ c.ed25519Pub.getD "" = "" ∧ contactFacts c = none) ∨
      (c.noIdentity ≠ some true ∧ c.ed25519Pub.getD "" ≠ "" ∧ contactFacts c =
        some ⟨c.ed25519Pub.getD "", c.x25519Pub.getD "", c.adminKeyCustody = some true, none⟩) := by
  by_cases hidentity : c.noIdentity = some true
  · exact .inl ⟨hidentity, if_pos hidentity⟩
  · right
    by_cases hkey : c.ed25519Pub.getD "" = ""
    · exact .inl ⟨hidentity, hkey, by rw [contactFacts, if_neg hidentity, if_pos hkey]⟩
    · exact .inr ⟨hidentity, hkey, contactFacts_of_key hidentity hkey⟩

theorem composerReports_absent (h : Publishes dir key) {c : ContactRecord}
    (hfacts : contactFacts c = some absentIdentityFacts) : ComposerReports (some c) dir := by
  have hmoved : changedFacts absentIdentityFacts (Trust.directoryFacts dir) =
      ["DMCN identity"] := by
    unfold changedFacts
    rw [h.directoryFacts]
    exact if_pos (by simp [absentIdentityFacts])
  refine ⟨?_, absentIdentityFacts, hfacts, .inr (hmoved ▸ List.mem_singleton_self _)⟩
  have hchanged : ¬ unchanged absentIdentityFacts (Trust.directoryFacts dir) = true := by
    rw [unchanged_iff, hmoved]
    exact List.cons_ne_nil _ _
  unfold checkPin
  rw [Option.bind_some, hfacts]
  dsimp only
  rw [if_neg hchanged, h.directoryFacts]
  dsimp only
  rw [if_neg (fun hnone => h.listed hnone.1), if_pos (by simp [absentIdentityFacts])]

theorem composerReports_key (h : Publishes dir key) {c : ContactRecord}
    (hkey : c.ed25519Pub.getD "" ≠ "") (hfacts : contactFacts c =
      some ⟨c.ed25519Pub.getD "", c.x25519Pub.getD "", c.adminKeyCustody = some true, none⟩) :
    ComposerReports (some c) dir ↔ c.ed25519Pub.getD "" ≠ dir.ed25519Pub.getD "" := by
  constructor
  · rintro ⟨-, pinned, hpinned, hlisted⟩ hsame
    rw [Option.bind_some, hfacts] at hpinned
    rw [← Option.some.inj hpinned, h.directoryFacts] at hlisted
    simp [changedFacts, hsame] at hlisted
  · intro hne
    have hlisted : "signing key" ∈ changedFacts
        ⟨c.ed25519Pub.getD "", c.x25519Pub.getD "", c.adminKeyCustody = some true, none⟩
        (Trust.directoryFacts dir) := by
      rw [h.directoryFacts]
      simp [changedFacts, hkey, hne]
    refine ⟨?_, _, hfacts, .inl hlisted⟩
    have hchanged :
        ¬ unchanged ⟨c.ed25519Pub.getD "", c.x25519Pub.getD "", c.adminKeyCustody = some true, none⟩
        (Trust.directoryFacts dir) = true := by
      rw [unchanged_iff]
      exact List.ne_nil_of_mem hlisted
    unfold checkPin
    rw [Option.bind_some, hfacts]
    dsimp only
    rw [if_neg hchanged, h.directoryFacts]
    dsimp only
    rw [if_neg (fun hnone => h.listed hnone.1), if_neg (by simp), if_pos hne]

theorem hexOfB64_eq_iff (hkey : key ≠ []) {b64 : String} :
    hexOfB64 b64 = Hex.encode key ↔ fromBase64 b64 = some key := by
  unfold hexOfB64
  cases hdecoded : fromBase64 b64 with
  | none =>
    have hempty : Hex.encode [] = "" := rfl
    rw [Option.elim_none, ← hempty]
    exact iff_of_false (fun hsame => hkey (Hex.encode_injective hsame).symm) (by simp)
  | some bytes => rw [Option.elim_some, Hex.encode_injective.eq_iff, Option.some.injEq]

theorem categorizeSender_ne {t : JsText} {senderAddress : String} {filter : Option FilterList}
    {c : ContactRecord} (hkey : key ≠ [])
    (hblock : filterBlocks t filter senderAddress (Hex.encode key) = false) :
    categorizeSender t senderAddress (Hex.encode key) (some c) filter ≠ .allowlisted ↔
      c.ed25519Pub.getD "" ≠ "" ∧ fromBase64 (c.ed25519Pub.getD "") ≠ some key := by
  unfold categorizeSender
  have hiff : c.ed25519Pub.getD "" ≠ "" ∧ hexOfB64 (c.ed25519Pub.getD "") ≠ Hex.encode key ↔
      c.ed25519Pub.getD "" ≠ "" ∧ fromBase64 (c.ed25519Pub.getD "") ≠ some key :=
    and_congr_right' (not_congr (hexOfB64_eq_iff hkey))
  rw [hblock, if_neg Bool.false_ne_true, t.lower_hex]
  dsimp only
  split
  · next hother => exact iff_of_true (by decide) (hiff.mp hother)
  · next hsame => exact iff_of_false (fun hne => hne rfl) fun hother => hsame (hiff.mpr hother)

/-- The three judge the signing key alike exactly on the rows that they can compare. -/
theorem judgedAlike_iff (t : JsText) (senderAddress : String) (key : Fixed 32)
    (contact : Option ContactRecord) (dir : IdentityLookupResponse) (filter : Option FilterList)
    (hpublishes : Publishes dir key.val)
    (hblock : filterBlocks t filter senderAddress (Hex.encode key.val) = false) :
    JudgedAlike t senderAddress key.val contact dir filter ↔ Comparable key.val dir contact := by
  have hkey : key.val ≠ [] := by
    intro hempty
    have hlength := key.length_eq
    rw [hempty] at hlength
    exact absurd hlength (by decide)
  have hreader := fun contact => @readerReports_iff dir key.val contact hpublishes
  cases contact with
  | none =>
    have hreader : ¬ ReaderReports key.val none dir := by
      rw [hreader]
      rintro ⟨-, pinned, hpinned, -⟩
      exact nomatch hpinned
    have hcomposer : ¬ ComposerReports none dir := by
      rintro ⟨-, pinned, hpinned, -⟩
      exact nomatch hpinned
    exact iff_of_true ⟨iff_of_false hreader hcomposer, fun hreports => absurd hreports hreader⟩
      trivial
  | some c =>
    have hcategory := @categorizeSender_ne key.val t senderAddress filter c hkey hblock
    have hreader := hreader (some c)
    rw [Option.bind_some] at hreader
    rcases contactFacts_cases c with ⟨hidentity, hfacts⟩ | ⟨hidentity, hempty, hfacts⟩ |
      ⟨hidentity, hpin, hfacts⟩
    · -- a confirmed absence: the composer reports the identity, the inbox looks at no pin
      have hcomposer := composerReports_absent hpublishes hfacts
      have hreports : ReaderReports key.val (some c) dir ↔ dir.identityUnverifiable ≠
          some true := by
        rw [hreader, hfacts]
        exact ⟨And.left, fun hverified => ⟨hverified, absentIdentityFacts, rfl, rfl⟩⟩
      constructor
      · intro halike
        have hreported := halike.reported.mpr hcomposer
        exact .inr ⟨hreports.mp hreported, hcategory.mp (halike.demoted hreported)⟩
      · rintro (⟨hno, -⟩ | ⟨hverified, hother⟩)
        · exact absurd hidentity hno
        · exact ⟨iff_of_true (hreports.mpr hverified) hcomposer, fun _ => hcategory.mpr hother⟩
    · have hno : ¬ ReaderReports key.val (some c) dir := by
        rw [hreader, hfacts]
        rintro ⟨-, pinned, hpinned, -⟩
        exact nomatch hpinned
      have hcomposer : ¬ ComposerReports (some c) dir := by
        rintro ⟨-, pinned, hpinned, -⟩
        rw [Option.bind_some, hfacts] at hpinned
        exact nomatch hpinned
      exact iff_of_true ⟨iff_of_false hno hcomposer, fun hreports => absurd hreports hno⟩
        (.inl ⟨hidentity, .inl hempty⟩)
    · have hcomposer := composerReports_key hpublishes hpin hfacts
      have hreports : ReaderReports key.val (some c) dir ↔
          dir.identityUnverifiable ≠ some true ∧ fromBase64 (c.ed25519Pub.getD "") ≠
            some key.val := by
        rw [hreader, hfacts]
        constructor
        · rintro ⟨hverified, pinned, hpinned, hother⟩
          rw [← Option.some.inj hpinned] at hother
          refine ⟨hverified, fun hsame => ?_⟩
          rw [base64Eq_iff.mpr ⟨hpin, hsame⟩] at hother
          exact Bool.noConfusion hother
        · rintro ⟨hverified, hother⟩
          refine ⟨hverified, _, rfl, ?_⟩
          rw [← Bool.not_eq_true, base64Eq_iff]
          exact fun hsame => hother hsame.2
      by_cases hsame : c.ed25519Pub.getD "" = dir.ed25519Pub.getD ""
      · have hno : ¬ ReaderReports key.val (some c) dir := by
          rw [hreports, hsame]
          exact fun hother => hother.2 hpublishes.same
        exact iff_of_true ⟨iff_of_false hno fun hcomposed => hcomposer.mp hcomposed hsame,
          fun hreported => absurd hreported hno⟩ (.inl ⟨hidentity, .inr hsame⟩)
      · constructor
        · intro halike
          have hreported := hreports.mp (halike.reported.mpr (hcomposer.mpr hsame))
          exact .inr ⟨hreported.1, hpin, hreported.2⟩
        · rintro (⟨-, hempty | hequal⟩ | ⟨hverified, -, hother⟩)
          · exact absurd hempty hpin
          · exact absurd hequal hsame
          · exact ⟨iff_of_true (hreports.mpr ⟨hverified, hother⟩) (hcomposer.mpr hsame),
              fun _ => hcategory.mpr ⟨hpin, hother⟩⟩

end Alike

section Returned

def asciiText : JsText where
  toLowerCase s := String.ofList (s.toList.map Char.toLower)
  trim s := String.ofList ((s.toList.dropWhile isAsciiSpace).reverse.dropWhile isAsciiSpace).reverse
  lower_hex b := by
    have hdigit : ∀ n < 16, (Hex.digit n).toLower = Hex.digit n := by decide
    have hchars : (Hex.encodeChars b).map Char.toLower = Hex.encodeChars b := by
      refine (List.map_congr_left fun c hc => ?_).trans (List.map_id _)
      obtain ⟨x, -, hx⟩ := List.mem_flatMap.mp hc
      have hlt := x.toNat_lt
      rcases List.mem_cons.mp hx with rfl | hx
      · exact hdigit _ (by omega)
      · rw [List.mem_singleton.mp hx]
        exact hdigit _ (by omega)
    unfold Hex.encode
    rw [String.toList_ofList, hchars]

def bobKey : Fixed 32 := ⟨List.replicate 32 0, List.length_replicate⟩

def bobAnswer : IdentityLookupResponse :=
  ⟨"AAAAAAAAAAAAAAAAAAAAAAAAAAAAAAAAAAAAAAAAAAA=", "AAAAAAAAAAAAAAAAAAAAAAAAAAAAAAAAAAAAAAAAAAA=",
    "66687AADF862BD77", some 2, none, none, none⟩

def bobRow (ed25519Pub : Option String) (noIdentity : Option Bool) : ContactRecord where
  v := 3
  address := "bob@example.org"
  name := "Bob"
  fingerprint := ""
  notes := none
  updatedAt := 0
  deviceId := ""
  provenance := some .userApproved
  ed25519Pub := ed25519Pub
  x25519Pub := none
  pinnedAt := some 0
  adminKeyCustody := none
  noIdentity := noIdentity
  pinSeq := some 1

theorem publishes_bobAnswer : Publishes bobAnswer bobKey.val :=
  ⟨by decide, by decide, by decide⟩

/-- A row of another key. -/
theorem judgedAlike_rotated : JudgedAlike asciiText "bob@example.org" bobKey.val
    (bobRow (some "AQEBAQEBAQEBAQEBAQEBAQEBAQEBAQEBAQEBAQEBAQE=") none) bobAnswer none :=
  (judgedAlike_iff asciiText "bob@example.org" bobKey _ bobAnswer none publishes_bobAnswer rfl).mpr
    (.inr ⟨by decide, by decide, by decide⟩)

/-- Bob had no identity, and the owner confirmed that. Then he has one: the reader warns, and the
inbox lets him in. -/
theorem returned_not_judged_alike : Publishes bobAnswer bobKey.val ∧
    filterBlocks asciiText none "bob@example.org" (Hex.encode bobKey.val) = false ∧
      ¬ JudgedAlike asciiText "bob@example.org" bobKey.val (bobRow (some "") (some true)) bobAnswer
      none := by
  refine ⟨publishes_bobAnswer, rfl, fun halike => ?_⟩
  have hreported := halike.reported.mpr (composerReports_absent publishes_bobAnswer rfl)
  have hdemoted := (categorizeSender_ne (by decide) rfl).mp (halike.demoted hreported)
  exact hdemoted.1 rfl

end Returned

end Dmcn.Web.Trust
