import Mathlib.Data.List.AList
import OpenDmcn.IdealRuntime
import OpenDmcn.Identity.Address

/-! The addresses of the bridge (`bridge/address.go`, `bridge/profiles.go`, `domainOf` of
`bridge/auth_dns.go`): a DMCN address and the address that stands for it in ordinary mail. -/

namespace Go.Strings

def trim (s : String) (cutset : List Char) : String :=
  String.ofList ((s.toList.dropWhile cutset.contains).reverse.dropWhile cutset.contains).reverse

def afterLastAtSign (s : String) : Option String :=
  if '@' ∈ s.toList then some (String.ofList (s.toList.reverse.takeWhile (· != '@')).reverse)
    else none

theorem join_of_splitAtSign {s l d : String} (h : splitAtSign s = some (l, d)) :
    '@' ∉ l.toList ∧ l ++ "@" ++ d = s := by
  have hlist := toList_of_splitAtSign h
  have hbefore : '@' ∉ l.toList := by
    unfold splitAtSign at h
    simp only [List.span_eq_takeWhile_dropWhile] at h
    cases hdrop : s.toList.dropWhile (· != '@') with
    | nil =>
      rw [hdrop] at h
      cases h
    | cons c cs =>
      rw [hdrop] at h
      cases h
      rw [String.toList_ofList]
      intro hmem
      simpa using List.mem_takeWhile_imp hmem
  refine ⟨hbefore, ?_⟩
  apply String.toList_inj.mp
  simp [hlist]

theorem splitAtSign_join {l d : String} (hat : '@' ∉ l.toList) : splitAtSign (l ++ "@" ++ d) = some
    (l, d) := by
  have hall : ∀ c ∈ l.toList, (c != '@') = true := by
    intro c hc
    rw [bne_iff_ne]
    rintro rfl
    exact hat hc
  have hlist : (l ++ "@" ++ d).toList = l.toList ++ '@' :: d.toList := by simp
  unfold splitAtSign
  rw [List.span_eq_takeWhile_dropWhile, hlist, List.takeWhile_append_of_pos hall,
    List.dropWhile_append_of_pos hall]
  simp

/-- What is left of a string with an at sign when both ends are trimmed. -/
theorem trim_at {p : Char → Bool} (hat : p '@' = false) (xs ys : List Char) :
    (((xs ++ '@' :: ys).dropWhile p).reverse.dropWhile p).reverse =
      xs.dropWhile p ++ '@' :: (ys.reverse.dropWhile p).reverse := by
  have hleft : ∀ zs ws : List Char,
      (zs ++ '@' :: ws).dropWhile p = zs.dropWhile p ++ '@' :: ws := by
    intro zs ws
    induction zs with
    | nil => simp [hat]
    | cons z zs ih =>
      cases hz : p z with
      | true => simpa [List.dropWhile_cons, hz] using ih
      | false => simp [hz]
  have hright : ∀ zs ws : List Char,
      (zs.reverse ++ '@' :: ws).dropWhile p = zs.reverse.dropWhile p ++ '@' :: ws := by
    intro zs ws
    exact hleft zs.reverse ws
  rw [hleft, List.reverse_append, List.reverse_cons, List.append_assoc, List.singleton_append,
    hright, List.reverse_append, List.reverse_cons, List.reverse_reverse, List.append_assoc,
    List.singleton_append]

theorem afterLastAtSign_at (xs ys : List Char) :
    afterLastAtSign (String.ofList (xs ++ '@' :: ys)) =
      some (String.ofList (ys.reverse.takeWhile (· != '@')).reverse) := by
  have hstop : ∀ zs ws : List Char,
      (zs ++ '@' :: ws).takeWhile (· != '@') = zs.takeWhile (· != '@') := by
    intro zs ws
    induction zs with
    | nil => simp
    | cons z zs ih => simp only [List.cons_append, List.takeWhile_cons, ih]
  unfold afterLastAtSign
  rw [String.toList_ofList, if_pos (List.mem_append_right _ (List.mem_cons_self ..)),
    List.reverse_append, List.reverse_cons, List.append_assoc, List.singleton_append, hstop]

def hostChar (c : Char) : Bool := c.isAlphanum || c == '.' || c == '-'

structure HostTables (u : Unicode) : Prop where
  space_at : u.space '@' = false
  space : ∀ c, hostChar c = true → u.space c = false
  lower_lower : ∀ c, hostChar c = true → u.lower (u.lower c) = u.lower c
  fold_of_lower : ∀ c c', hostChar c = true → hostChar c' = true → u.lower c = u.lower c' →
    u.fold c = u.fold c'

def IsHost (s : String) : Prop := ∀ c ∈ s.toList, hostChar c = true

section Host

variable {u : Unicode} (hu : HostTables u)
include hu

theorem toLower_toLower_host {s : String} (hs : IsHost s) : toLower u
    (toLower u s) = toLower u s := by
  unfold toLower
  rw [String.toList_ofList, List.map_map]
  refine congrArg String.ofList (List.map_congr_left fun c hc => ?_)
  exact hu.lower_lower c (hs c hc)

theorem equalFold_of_toLower {s t : String} (hs : IsHost s) (ht : IsHost t)
    (h : toLower u s = toLower u t) : equalFold u s t = true := by
  have hmap : s.toList.map u.lower = t.toList.map u.lower := String.ofList_inj.mp h
  unfold equalFold IsHost at *
  rw [beq_iff_eq]
  generalize s.toList = xs at hs hmap
  generalize t.toList = ys at ht hmap
  induction xs generalizing ys with
  | nil =>
    obtain rfl : ys = [] := by simpa using hmap.symm
    rfl
  | cons x xs ih =>
    cases ys with
    | nil => cases hmap
    | cons y ys =>
      obtain ⟨hhead, htail⟩ := List.cons.inj hmap
      rw [List.map_cons, List.map_cons, hu.fold_of_lower x y (hs x (by simp)) (ht y (by simp))
        hhead, ih (fun c hc => hs c (by simp [hc])) ys (fun c hc => ht c (by simp [hc])) htail]

end Host

end Go.Strings

namespace Dmcn.Bridge

open Go

section Addresses

variable (u : Unicode)

/-- The domain after the last at sign, in lower case; white space and angle brackets around the
address do not count. -/
def domainOf (addr : String) : String :=
  match Strings.afterLastAtSign (Strings.trim (Strings.trimSpace u addr) ['<', '>']) with
  | none => ""
  | some domain => if domain = "" then "" else Strings.toLower u domain

def splitAddress (addr : String) : String × String :=
  match Strings.splitAtSign addr with
  | none => ("", "")
  | some (local', domain) => if local' = "" ∨ domain = "" then ("", "") else (local', domain)

def smtpToDMCN (smtpAddr bridgeDomain dmcnDomain : String) : String :=
  let (local', domain) := splitAddress smtpAddr
  if local' = "" ∨ Strings.equalFold u domain bridgeDomain = false then smtpAddr
  else local' ++ "@" ++ dmcnDomain

def dmcnToSMTPFrom (dmcnAddr bridgeDomain : String) : String :=
  let (local', _) := splitAddress dmcnAddr
  if local' = "" then dmcnAddr else local' ++ "@" ++ bridgeDomain

def isLegacyAddress (addr bridgeDomain dmcnDomain : String) : Bool :=
  let (_, domain) := splitAddress addr
  if domain = "" then false
  else !Strings.equalFold u domain bridgeDomain && !Strings.equalFold u domain dmcnDomain

end Addresses

structure DomainProfile where
  bridgeDomain : String
  dmcnDomain : String
  deriving DecidableEq

structure ProfileSet where
  byBridge : AList fun _ : String => DomainProfile
  byDMCN : AList fun _ : String => DomainProfile
  defaultBridge : String
  defaultDMCN : String

namespace ProfileSet

variable (u : Unicode)

/-- A later profile takes the place of an earlier one that has a domain with it in common. -/
def add (ps : ProfileSet) (p : DomainProfile) : ProfileSet :=
  if p.bridgeDomain = "" ∨ p.dmcnDomain = "" then ps
  else
    { ps with
      byBridge := ps.byBridge.insert (Strings.toLower u p.bridgeDomain) p
      byDMCN := ps.byDMCN.insert (Strings.toLower u p.dmcnDomain) p }

def newProfileSet (profiles : List DomainProfile) (defaultBridge defaultDMCN : String) :
    ProfileSet :=
  (⟨defaultBridge, defaultDMCN⟩ :: profiles).foldl (add u) ⟨∅, ∅, defaultBridge, defaultDMCN⟩

def forBridgeDomain (ps : ProfileSet) (bridgeDomain : String) : String × String :=
  match ps.byBridge.lookup (Strings.toLower u bridgeDomain) with
  | some p => (p.bridgeDomain, p.dmcnDomain)
  | none => (ps.defaultBridge, ps.defaultDMCN)

def forDMCNDomain (ps : ProfileSet) (dmcnDomain : String) : String × String :=
  match ps.byDMCN.lookup (Strings.toLower u dmcnDomain) with
  | some p => (p.bridgeDomain, p.dmcnDomain)
  | none => (ps.defaultBridge, ps.defaultDMCN)

def servesBridgeDomain (ps : ProfileSet) (bridgeDomain : String) : Bool :=
  (ps.byBridge.lookup (Strings.toLower u bridgeDomain)).isSome

def dmcnDomains (ps : ProfileSet) : List String := ps.byDMCN.keys

end ProfileSet

/-- The part of the bridge's configuration that concerns addresses, the same for both directions. -/
structure DomainConfig where
  bridgeDomain : String
  dmcnDomain : String
  profiles : List DomainProfile
  allowedSenderDomains : List String

namespace DomainConfig

variable (u : Unicode) (cfg : DomainConfig)

def profileSet : ProfileSet :=
  ProfileSet.newProfileSet u cfg.profiles cfg.bridgeDomain cfg.dmcnDomain

def allowedSenders : List String :=
  (cfg.profileSet u).dmcnDomains.map (Strings.toLower u) ++
    (cfg.allowedSenderDomains.map fun d => Strings.toLower u (Strings.trimSpace u d)).filter
      (· ≠ "")

def senderAuthorized (senderAddr : String) : Bool :=
  (cfg.allowedSenders u).contains (domainOf u senderAddr)

def smtpFrom (senderAddr : String) : String :=
  dmcnToSMTPFrom senderAddr ((cfg.profileSet u).forDMCNDomain u (domainOf u senderAddr)).1

/-- The DMCN address that mail to an address of the bridge is for (`InboundHandler.recipient`). -/
def recipient (smtpAddr : String) : String :=
  let (bridgeDomain, dmcnDomain) := (cfg.profileSet u).forBridgeDomain u (domainOf u smtpAddr)
  smtpToDMCN u smtpAddr bridgeDomain dmcnDomain

def pairs : List DomainProfile :=
  (⟨cfg.bridgeDomain, cfg.dmcnDomain⟩ :: cfg.profiles).filter fun p =>
    p.bridgeDomain ≠ "" ∧ p.dmcnDomain ≠ ""

def lastWith (side : DomainProfile → String) (domain : String) : Option DomainProfile :=
  (cfg.pairs.filter fun p => Strings.toLower u (side p) = Strings.toLower u domain).getLast?

def pairFor (side : DomainProfile → String) (domain : String) : DomainProfile :=
  (cfg.lastWith u side domain).getD ⟨cfg.bridgeDomain, cfg.dmcnDomain⟩

def backTo (bridgeDomain : String) : String :=
  let p := cfg.pairFor u DomainProfile.bridgeDomain (domainOf u ("@" ++ bridgeDomain))
  if bridgeDomain ≠ "" ∧ Strings.equalFold u bridgeDomain p.bridgeDomain = true then p.dmcnDomain
  else bridgeDomain

def HostNames : Prop :=
  ∀ p ∈ (⟨cfg.bridgeDomain, cfg.dmcnDomain⟩ :: cfg.profiles : List DomainProfile),
    Strings.IsHost p.bridgeDomain ∧ Strings.IsHost p.dmcnDomain

/-- Some pair is the last with its DMCN domain and the last with its bridge domain, and what follows
the first at sign of the address is its DMCN domain, letter by letter. -/
def Serves (a : String) : Prop :=
  ∃ p ∈ cfg.pairs, cfg.lastWith u DomainProfile.dmcnDomain p.dmcnDomain = some p ∧
    cfg.lastWith u DomainProfile.bridgeDomain p.bridgeDomain = some p ∧
    Dmcn.domainOf a = p.dmcnDomain

end DomainConfig

section Lookup

variable {u : Unicode} {cfg : DomainConfig}

theorem getLast?_filter_cons {α : Type} (p : α → Bool) (a : α) (as : List α) :
    ((a :: as).filter p).getLast? =
      ((as.filter p).getLast?).or (if p a = true then some a else none) := by
  cases ha : p a with
  | true =>
    rw [List.filter_cons_of_pos ha, List.getLast?_cons]
    cases (as.filter p).getLast? <;> simp
  | false => rw [List.filter_cons_of_neg (by simp [ha])]; simp

theorem lookup_add (s : ProfileSet) (p : DomainProfile) (key : String) :
    (s.add u p).byBridge.lookup key =
        (if (p.bridgeDomain ≠ "" ∧ p.dmcnDomain ≠ "") ∧ Strings.toLower u p.bridgeDomain = key
          then some p else none).or (s.byBridge.lookup key) ∧
      (s.add u p).byDMCN.lookup key =
        (if (p.bridgeDomain ≠ "" ∧ p.dmcnDomain ≠ "") ∧ Strings.toLower u p.dmcnDomain = key
          then some p else none).or (s.byDMCN.lookup key) := by
  unfold ProfileSet.add
  by_cases hkept : p.bridgeDomain ≠ "" ∧ p.dmcnDomain ≠ ""
  · rw [if_neg (by simpa [not_or] using hkept)]
    constructor
    · by_cases hkey : Strings.toLower u p.bridgeDomain = key
      · subst hkey
        simp [hkept]
      · simp [hkey, AList.lookup_insert_ne (Ne.symm hkey)]
    · by_cases hkey : Strings.toLower u p.dmcnDomain = key
      · subst hkey
        simp [hkept]
      · simp [hkey, AList.lookup_insert_ne (Ne.symm hkey)]
  · rw [if_pos (by simpa [or_iff_not_imp_left] using hkept)]
    simp [hkept]

theorem lookup_foldl_add (key : String) (ps : List DomainProfile) (s : ProfileSet) :
    (ps.foldl (ProfileSet.add u) s).byBridge.lookup key =
        ((((ps.filter fun p => p.bridgeDomain ≠ "" ∧ p.dmcnDomain ≠ "").filter
          fun p => Strings.toLower u p.bridgeDomain = key)).getLast?).or (s.byBridge.lookup key) ∧
      (ps.foldl (ProfileSet.add u) s).byDMCN.lookup key =
        ((((ps.filter fun p => p.bridgeDomain ≠ "" ∧ p.dmcnDomain ≠ "").filter
          fun p => Strings.toLower u p.dmcnDomain = key)).getLast?).or (s.byDMCN.lookup key) := by
  simp only [List.filter_filter]
  induction ps generalizing s with
  | nil => simp
  | cons p ps ih =>
    obtain ⟨hbridge, hdmcn⟩ := ih (s.add u p)
    obtain ⟨haddBridge, haddDmcn⟩ := lookup_add (u := u) s p key
    simp only [List.foldl_cons, getLast?_filter_cons]
    rw [hbridge, hdmcn, haddBridge, haddDmcn, Option.or_assoc, Option.or_assoc]
    simp [and_comm]

theorem foldl_add_defaults (ps : List DomainProfile) (s : ProfileSet) :
    (ps.foldl (ProfileSet.add u) s).defaultBridge = s.defaultBridge ∧
      (ps.foldl (ProfileSet.add u) s).defaultDMCN = s.defaultDMCN := by
  induction ps generalizing s with
  | nil => exact ⟨rfl, rfl⟩
  | cons p ps ih =>
    obtain ⟨hbridge, hdmcn⟩ := ih (s.add u p)
    rw [List.foldl_cons, hbridge, hdmcn]
    unfold ProfileSet.add
    split <;> exact ⟨rfl, rfl⟩

theorem forBridgeDomain_eq (domain : String) : (cfg.profileSet u).forBridgeDomain u domain =
    ((cfg.pairFor u DomainProfile.bridgeDomain domain).bridgeDomain,
      (cfg.pairFor u DomainProfile.bridgeDomain domain).dmcnDomain) := by
  have hlookup : (cfg.profileSet u).byBridge.lookup (Strings.toLower u domain) =
      cfg.lastWith u DomainProfile.bridgeDomain domain := by
    refine (lookup_foldl_add _ _ _).1.trans ?_
    simp [DomainConfig.lastWith, DomainConfig.pairs]
  obtain ⟨hbridge, hdmcn⟩ := foldl_add_defaults (u := u)
    (⟨cfg.bridgeDomain, cfg.dmcnDomain⟩ :: cfg.profiles) ⟨∅, ∅, cfg.bridgeDomain, cfg.dmcnDomain⟩
  unfold ProfileSet.forBridgeDomain DomainConfig.pairFor
  rw [hlookup]
  cases cfg.lastWith u DomainProfile.bridgeDomain domain with
  | none => exact Prod.ext hbridge hdmcn
  | some p => rfl

theorem forDMCNDomain_eq (domain : String) : (cfg.profileSet u).forDMCNDomain u domain =
    ((cfg.pairFor u DomainProfile.dmcnDomain domain).bridgeDomain,
      (cfg.pairFor u DomainProfile.dmcnDomain domain).dmcnDomain) := by
  have hlookup : (cfg.profileSet u).byDMCN.lookup (Strings.toLower u domain) =
      cfg.lastWith u DomainProfile.dmcnDomain domain := by
    refine (lookup_foldl_add _ _ _).2.trans ?_
    simp [DomainConfig.lastWith, DomainConfig.pairs]
  obtain ⟨hbridge, hdmcn⟩ := foldl_add_defaults (u := u)
    (⟨cfg.bridgeDomain, cfg.dmcnDomain⟩ :: cfg.profiles) ⟨∅, ∅, cfg.bridgeDomain, cfg.dmcnDomain⟩
  unfold ProfileSet.forDMCNDomain DomainConfig.pairFor
  rw [hlookup]
  cases cfg.lastWith u DomainProfile.dmcnDomain domain with
  | none => exact Prod.ext hbridge hdmcn
  | some p => rfl

end Lookup

section RoundTrip

variable {u : Unicode} {cfg : DomainConfig} {l d : String}

/-- What is read of an address with an at sign when its domain is looked for. -/
theorem afterLastAtSign_trimmed (hspace : u.space '@' = false) (l b : String) :
    Strings.afterLastAtSign (Strings.trim (Strings.trimSpace u (l ++ "@" ++ b)) ['<', '>']) =
      some (String.ofList (((b.toList.reverse.dropWhile u.space).dropWhile
        ['<', '>'].contains).takeWhile (· != '@')).reverse) := by
  have hlist : (l ++ "@" ++ b).toList = l.toList ++ '@' :: b.toList := by simp
  unfold Strings.trim Strings.trimSpace
  rw [hlist, Strings.trim_at hspace, String.toList_ofList, Strings.trim_at (by decide),
    Strings.afterLastAtSign_at, List.reverse_reverse, List.reverse_reverse]

theorem domainOf_join (hspace : u.space '@' = false) (l b : String) :
    domainOf u (l ++ "@" ++ b) = domainOf u ("@" ++ b) := by
  have hempty : "@" ++ b = "" ++ "@" ++ b := by simp
  unfold domainOf
  rw [hempty, afterLastAtSign_trimmed hspace, afterLastAtSign_trimmed hspace]

theorem domainOf_host (hu : Strings.HostTables u) (l : String) (hd : Strings.IsHost d) :
    domainOf u (l ++ "@" ++ d) = Strings.toLower u d := by
  have hhost : ∀ c ∈ d.toList.reverse, Strings.hostChar c = true := by
    intro c hc
    exact hd c (List.mem_reverse.mp hc)
  have hends : ∀ p : Char → Bool, (∀ c, Strings.hostChar c = true → p c = false) →
      d.toList.reverse.dropWhile p = d.toList.reverse := by
    intro p hp
    cases hrev : d.toList.reverse with
    | nil => rfl
    | cons c cs => exact List.dropWhile_cons_of_neg (by simp [hp c (hhost c (by simp [hrev]))])
  have hbrackets : ∀ c, Strings.hostChar c = true → ['<', '>'].contains c = false := by
    intro c hc
    by_contra hmem
    rw [Bool.not_eq_false, List.contains_iff_mem] at hmem
    simp only [List.mem_cons, List.not_mem_nil, or_false] at hmem
    rcases hmem with rfl | rfl <;> exact absurd hc (by decide)
  have hat : ∀ c ∈ d.toList.reverse, (c != '@') = true := by
    intro c hc
    rw [bne_iff_ne]
    rintro rfl
    exact absurd (hhost _ hc) (by decide)
  unfold domainOf
  rw [afterLastAtSign_trimmed hu.space_at, hends _ hu.space, hends _ hbrackets,
    List.takeWhile_eq_self_iff.mpr hat, List.reverse_reverse, String.ofList_toList]
  dsimp only
  split
  · next h => rw [h]; rfl
  · rfl

theorem splitAddress_join (hl : l ≠ "") (hat : '@' ∉ l.toList) :
    splitAddress (l ++ "@" ++ d) = if d = "" then ("", "") else (l, d) := by
  unfold splitAddress
  rw [Strings.splitAtSign_join hat]
  by_cases hd : d = ""
  · rw [if_pos hd]
    simp [hd]
  · rw [if_neg hd]
    simp [hl, hd]

theorem smtpFrom_join (hl : l ≠ "") (hd : d ≠ "") (hat : '@' ∉ l.toList) :
    cfg.smtpFrom u (l ++ "@" ++ d) = l ++ "@" ++
      (cfg.pairFor u DomainProfile.dmcnDomain (domainOf u (l ++ "@" ++ d))).bridgeDomain := by
  unfold DomainConfig.smtpFrom dmcnToSMTPFrom
  rw [splitAddress_join hl hat, if_neg hd, forDMCNDomain_eq]
  dsimp only
  rw [if_neg hl]

theorem recipient_join (hspace : u.space '@' = false) (hl : l ≠ "") (hat : '@' ∉ l.toList)
    (b : String) : cfg.recipient u (l ++ "@" ++ b) = l ++ "@" ++ cfg.backTo u b := by
  unfold DomainConfig.recipient DomainConfig.backTo smtpToDMCN
  rw [forBridgeDomain_eq, domainOf_join hspace, splitAddress_join hl hat]
  dsimp only
  generalize cfg.pairFor u DomainProfile.bridgeDomain (domainOf u ("@" ++ b)) = p
  by_cases hempty : b = ""
  · rw [if_pos hempty]
    simp [hempty]
  · rw [if_neg hempty]
    by_cases hsame : Strings.equalFold u b p.bridgeDomain = true
    · simp [hl, hempty, hsame]
    · simp [hsame]

variable {side : DomainProfile → String} {p : DomainProfile}

theorem lastWith_eq_some (h : cfg.lastWith u side d = some p) :
    p ∈ cfg.pairs ∧ Strings.toLower u (side p) = Strings.toLower u d := by
  have hmem := List.mem_filter.mp (List.mem_of_getLast? h)
  exact ⟨hmem.1, of_decide_eq_true hmem.2⟩

theorem lastWith_ne_none (side : DomainProfile → String) (hp : p ∈ cfg.pairs)
    (h : Strings.toLower u (side p) = Strings.toLower u d) : cfg.lastWith u side d ≠ none := by
  intro hnone
  have hnil := List.getLast?_eq_none_iff.mp hnone
  have hmem : p ∈ cfg.pairs.filter fun p => Strings.toLower u (side p) = Strings.toLower u d :=
    List.mem_filter.mpr ⟨hp, decide_eq_true h⟩
  rw [hnil] at hmem
  cases hmem

/-- Two properties that each hold of the last one with the other have the same last one. -/
theorem last_unique {α : Type} {p q : α → Bool} {as : List α} {a b : α}
    (ha : (as.filter p).getLast? = some a) (hb : (as.filter q).getLast? = some b) (hqa : q a = true)
    (hpb : p b = true) : a = b := by
  have hboth : ∀ {p q : α → Bool} {a : α}, (as.filter p).getLast? = some a → q a = true →
      ((as.filter p).filter q).getLast? = some a := by
    intro p q a h hq
    obtain ⟨bs, hbs⟩ := List.getLast?_eq_some_iff.mp h
    rw [hbs, List.filter_append, List.filter_cons_of_pos hq]
    simp
  have hright := hboth hb hpb
  rw [List.filter_filter] at hright
  have hleft := hboth ha hqa
  rw [List.filter_filter, List.filter_congr fun x _ => Bool.and_comm (q x) (p x)] at hleft
  exact Option.some.inj (hleft.symm.trans hright)

theorem mem_of_mem_pairs (h : p ∈ cfg.pairs) :
    p ∈ (⟨cfg.bridgeDomain, cfg.dmcnDomain⟩ :: cfg.profiles : List DomainProfile) ∧
      p.bridgeDomain ≠ "" ∧ p.dmcnDomain ≠ "" := by
  obtain ⟨hmem, hkept⟩ := List.mem_filter.mp h
  exact ⟨hmem, of_decide_eq_true hkept⟩

theorem lastWith_congr {d d' : String} (h : Strings.toLower u d = Strings.toLower u d') :
    cfg.lastWith u side d = cfg.lastWith u side d' := by
  unfold DomainConfig.lastWith
  rw [h]

theorem pairFor_of_some (h : cfg.lastWith u side d = some p) : cfg.pairFor u side d = p := by
  unfold DomainConfig.pairFor
  rw [h]
  rfl

theorem pairFor_of_none (h : cfg.lastWith u side d = none) :
    cfg.pairFor u side d = ⟨cfg.bridgeDomain, cfg.dmcnDomain⟩ := by
  unfold DomainConfig.pairFor
  rw [h]
  rfl

theorem pairFor_bridge (hu : Strings.HostTables u) {b : String} (hb : Strings.IsHost b) :
    cfg.pairFor u DomainProfile.bridgeDomain (domainOf u ("@" ++ b)) =
      cfg.pairFor u DomainProfile.bridgeDomain b := by
  have hempty : "@" ++ b = "" ++ "@" ++ b := by simp
  unfold DomainConfig.pairFor
  rw [hempty, domainOf_host hu "" hb, lastWith_congr (Strings.toLower_toLower_host hu hb)]

theorem pairFor_dmcn (hu : Strings.HostTables u) (l : String) (hd : Strings.IsHost d) :
    cfg.pairFor u DomainProfile.dmcnDomain (domainOf u (l ++ "@" ++ d)) =
      cfg.pairFor u DomainProfile.dmcnDomain d := by
  unfold DomainConfig.pairFor
  rw [domainOf_host hu l hd, lastWith_congr (Strings.toLower_toLower_host hu hd)]

theorem backTo_of_some (hu : Strings.HostTables u) (hhost : cfg.HostNames) {b : String}
    {q : DomainProfile} (hb : Strings.IsHost b) (hne : b ≠ "")
    (h : cfg.lastWith u DomainProfile.bridgeDomain b = some q) : cfg.backTo u b = q.dmcnDomain := by
  obtain ⟨hq, hsame⟩ := lastWith_eq_some h
  have hhostq := (hhost q (mem_of_mem_pairs hq).1).1
  unfold DomainConfig.backTo
  rw [pairFor_bridge hu hb, pairFor_of_some h]
  exact if_pos ⟨hne, Strings.equalFold_of_toLower hu hb hhostq hsame.symm⟩

theorem backTo_serves (hu : Strings.HostTables u) (hhost : cfg.HostNames) (hp : p ∈ cfg.pairs)
    (hdmcn : cfg.lastWith u DomainProfile.dmcnDomain p.dmcnDomain = some p)
    (hbridge : cfg.lastWith u DomainProfile.bridgeDomain p.bridgeDomain = some p) (l : String) :
    cfg.backTo u (cfg.pairFor u DomainProfile.dmcnDomain
      (domainOf u (l ++ "@" ++ p.dmcnDomain))).bridgeDomain = p.dmcnDomain := by
  obtain ⟨hlisted, hne, -⟩ := mem_of_mem_pairs hp
  obtain ⟨hb, hd⟩ := hhost p hlisted
  rw [pairFor_dmcn hu l hd, pairFor_of_some hdmcn]
  exact backTo_of_some hu hhost hb hne hbridge

/-- When no pair has the DMCN domain of an address, its mail does not come back. -/
theorem backTo_default_ne (hu : Strings.HostTables u) (hhost : cfg.HostNames) (hd : d ≠ "")
    (hnone : cfg.lastWith u DomainProfile.dmcnDomain (domainOf u (l ++ "@" ++ d)) = none) :
    cfg.backTo u cfg.bridgeDomain ≠ d := by
  intro h
  obtain ⟨hb, -⟩ := hhost ⟨cfg.bridgeDomain, cfg.dmcnDomain⟩ (List.mem_cons_self ..)
  by_cases hne : cfg.bridgeDomain = ""
  · rw [hne] at h
    simp only [DomainConfig.backTo, ne_eq, not_true_eq_false, false_and, if_false] at h
    exact hd h.symm
  cases hlast : cfg.lastWith u DomainProfile.bridgeDomain cfg.bridgeDomain with
  | none =>
    have hback : cfg.backTo u cfg.bridgeDomain = cfg.dmcnDomain := by
      unfold DomainConfig.backTo
      rw [pairFor_bridge hu hb, pairFor_of_none hlast]
      exact if_pos ⟨hne, Strings.equalFold_refl _⟩
    have hlisted : (⟨cfg.bridgeDomain, cfg.dmcnDomain⟩ : DomainProfile) ∈ cfg.pairs := by
      refine List.mem_filter.mpr ⟨List.mem_cons_self .., decide_eq_true ⟨hne, ?_⟩⟩
      change cfg.dmcnDomain ≠ ""
      rw [← hback, h]
      exact hd
    exact lastWith_ne_none DomainProfile.bridgeDomain hlisted rfl hlast
  | some q =>
    obtain ⟨hq, -⟩ := lastWith_eq_some hlast
    obtain rfl : q.dmcnDomain = d := (backTo_of_some hu hhost hb hne hlast).symm.trans h
    have hhostq := (hhost q (mem_of_mem_pairs hq).1).2
    refine lastWith_ne_none DomainProfile.dmcnDomain hq ?_ hnone
    rw [domainOf_host hu l hhostq, Strings.toLower_toLower_host hu hhostq]

/-- The pair in force for the DMCN domain and the one in force for its bridge domain are each the
last with both. -/
theorem serves_of_backTo (hu : Strings.HostTables u) (hhost : cfg.HostNames)
    (hsends : cfg.lastWith u DomainProfile.dmcnDomain (domainOf u (l ++ "@" ++ d)) = some p)
    (h : cfg.backTo u p.bridgeDomain = d) :
    p ∈ cfg.pairs ∧ cfg.lastWith u DomainProfile.dmcnDomain p.dmcnDomain = some p ∧
      cfg.lastWith u DomainProfile.bridgeDomain p.bridgeDomain = some p ∧ d = p.dmcnDomain := by
  obtain ⟨hp, -⟩ := lastWith_eq_some hsends
  obtain ⟨hlisted, hne, -⟩ := mem_of_mem_pairs hp
  obtain ⟨q, hlast⟩ := Option.ne_none_iff_exists'.mp
    (lastWith_ne_none (u := u) DomainProfile.bridgeDomain hp rfl)
  obtain ⟨hq, -⟩ := lastWith_eq_some hlast
  obtain rfl : q.dmcnDomain = d :=
    (backTo_of_some hu hhost (hhost p hlisted).1 hne hlast).symm.trans h
  have hhostq := (hhost q (mem_of_mem_pairs hq).1).2
  rw [domainOf_host hu l hhostq, lastWith_congr (Strings.toLower_toLower_host hu hhostq)] at hsends
  have hkey := (lastWith_eq_some hsends).2
  have heq : p = q := last_unique hsends hlast (decide_eq_true rfl) (decide_eq_true rfl)
  rw [← heq] at hlast hsends
  exact ⟨hp, hsends, hlast, by rw [heq]⟩

end RoundTrip

/-- A sender's address comes back exactly when the configuration sends mail to the bridge domain of
the pair for what follows its last at sign to what follows its first; among host names, exactly when
one pair is in force both ways and follows the first at sign. Two addresses have one `From` exactly
when they agree before the first at sign and their pairs have one bridge domain. -/
theorem recipient_smtpFrom_iff {u : Unicode} (hu : Strings.HostTables u) (cfg : DomainConfig)
    {a : String} (ha : validateAddress a = true) :
    (cfg.recipient u (cfg.smtpFrom u a) = a ↔
      cfg.backTo u (cfg.pairFor u DomainProfile.dmcnDomain (domainOf u a)).bridgeDomain =
        Dmcn.domainOf a) ∧
    (cfg.HostNames → (cfg.recipient u (cfg.smtpFrom u a) = a ↔ cfg.Serves u a)) ∧
    ∀ b, validateAddress b = true → (cfg.smtpFrom u a = cfg.smtpFrom u b ↔
      localPartOf a = localPartOf b ∧
        (cfg.pairFor u DomainProfile.dmcnDomain (domainOf u a)).bridgeDomain =
          (cfg.pairFor u DomainProfile.dmcnDomain (domainOf u b)).bridgeDomain) := by
  have hsplit : ∀ a, validateAddress a = true → ∃ l d, l ≠ "" ∧ d ≠ "" ∧ '@' ∉ l.toList ∧
      l ++ "@" ++ d = a ∧ localPartOf a = l ∧ Dmcn.domainOf a = d := by
    intro a ha
    unfold validateAddress at ha
    unfold localPartOf Dmcn.domainOf
    cases hparts : Strings.splitAtSign a with
    | none =>
      rw [hparts] at ha
      cases ha
    | some parts =>
      obtain ⟨l, d⟩ := parts
      rw [hparts] at ha
      simp only [Bool.and_eq_true, bne_iff_ne] at ha
      obtain ⟨hat, hjoin⟩ := Strings.join_of_splitAtSign hparts
      exact ⟨l, d, ha.1, ha.2, hat, hjoin, rfl, rfl⟩
  obtain ⟨l, d, hl, hd, hat, rfl, hlocal, hdomain⟩ := hsplit a ha
  have hback : cfg.recipient u (cfg.smtpFrom u (l ++ "@" ++ d)) = l ++ "@" ++ d ↔
      cfg.backTo u (cfg.pairFor u DomainProfile.dmcnDomain
        (domainOf u (l ++ "@" ++ d))).bridgeDomain = d := by
    rw [smtpFrom_join hl hd hat, recipient_join hu.space_at hl hat, String.append_right_inj]
  rw [hdomain, hlocal]
  refine ⟨hback, fun hhost => hback.trans ⟨?_, ?_⟩, ?_⟩
  · intro h
    cases hsends : cfg.lastWith u DomainProfile.dmcnDomain (domainOf u (l ++ "@" ++ d)) with
    | none =>
      rw [pairFor_of_none hsends] at h
      exact absurd h (backTo_default_ne hu hhost hd hsends)
    | some p =>
      rw [pairFor_of_some hsends] at h
      obtain ⟨hp, hdmcn, hbridge, hname⟩ := serves_of_backTo hu hhost hsends h
      exact ⟨p, hp, hdmcn, hbridge, hdomain.trans hname⟩
  · rintro ⟨p, hp, hdmcn, hbridge, hname⟩
    obtain rfl := hdomain.symm.trans hname
    exact backTo_serves hu hhost hp hdmcn hbridge l
  · intro b hb
    obtain ⟨l', d', hl', hd', hat', rfl, hlocal', -⟩ := hsplit b hb
    rw [hlocal', smtpFrom_join hl hd hat, smtpFrom_join hl' hd' hat']
    constructor
    · intro h
      have hparts := congrArg Strings.splitAtSign h
      rw [Strings.splitAtSign_join hat, Strings.splitAtSign_join hat', Option.some.injEq,
        Prod.mk.injEq] at hparts
      exact hparts
    · rintro ⟨rfl, h⟩
      rw [h]

namespace Namesake

def cfg : DomainConfig := ⟨"bridge.localhost", "dmcn.localhost", [], ["other.localhost"]⟩

theorem hostTables : Strings.HostTables asciiUnicode where
  space_at := by decide
  space := by
    intro c hc
    by_contra hspace
    have hblank : c = ' ' ∨ c = '\t' ∨ c = '\r' ∨ c = '\n' := by
      simpa [asciiUnicode, Char.isWhitespace, or_assoc, or_iff_not_imp_left] using hspace
    rcases hblank with rfl | rfl | rfl | rfl <;> exact absurd hc (by decide)
  lower_lower := by
    intro c _
    change c.toLower.toLower = c.toLower
    unfold Char.toLower
    by_cases h : c.val ≥ 'A'.val ∧ c.val ≤ 'Z'.val
    · rw [dif_pos h, dif_neg]
      rintro ⟨-, hz⟩
      have hlow : 65 ≤ c.val.toNat := UInt32.le_iff_toNat_le.mp h.1
      have hhigh : c.val.toNat ≤ 90 := UInt32.le_iff_toNat_le.mp h.2
      have hshifted : (c.val.toNat + 32) % 2 ^ 32 ≤ 90 := UInt32.le_iff_toNat_le.mp hz
      omega
    · rw [dif_neg h, dif_neg h]
  fold_of_lower := fun _ _ _ _ h => h

theorem senderAuthorized_of_domainOf {sender : String}
    (hdomain : domainOf asciiUnicode sender = "dmcn.localhost") :
    cfg.senderAuthorized asciiUnicode sender = true := by
  have hallowed : cfg.allowedSenders asciiUnicode = ["dmcn.localhost", "other.localhost"] := by
    decide
  unfold DomainConfig.senderAuthorized
  rw [hallowed, hdomain]
  decide

theorem smtpFrom_of_domainOf {sender : String}
    (hdomain : domainOf asciiUnicode sender = "dmcn.localhost") :
    cfg.smtpFrom asciiUnicode sender = dmcnToSMTPFrom sender "bridge.localhost" := by
  have hpair : (cfg.profileSet asciiUnicode).forDMCNDomain asciiUnicode "dmcn.localhost" =
      ("bridge.localhost", "dmcn.localhost") := by decide
  unfold DomainConfig.smtpFrom
  rw [hdomain, hpair]

theorem alice_comes_back :
    cfg.senderAuthorized asciiUnicode "alice@dmcn.localhost" = true ∧
      cfg.recipient asciiUnicode (cfg.smtpFrom asciiUnicode "alice@dmcn.localhost") =
        "alice@dmcn.localhost" := by
  refine ⟨senderAuthorized_of_domainOf (by decide), ?_⟩
  have hhost : cfg.HostNames := by
    intro p hp
    rw [List.mem_singleton.mp hp]
    exact ⟨List.all_eq_true.mp (by decide), List.all_eq_true.mp (by decide)⟩
  refine ((recipient_smtpFrom_iff hostTables cfg (by decide)).2.1 hhost).mpr ?_
  exact ⟨⟨"bridge.localhost", "dmcn.localhost"⟩,
    by decide, by decide, by decide, by decide⟩

/-- A sender who is authorised by what follows the last at sign goes out under what stands before
the first, as a namesake on the domain, who gets the replies. -/
theorem reply_reaches_ceo :
    validateAddress "ceo@x@dmcn.localhost" = true ∧
      cfg.senderAuthorized asciiUnicode "ceo@x@dmcn.localhost" = true ∧
      cfg.smtpFrom asciiUnicode "ceo@x@dmcn.localhost" = "ceo@bridge.localhost" ∧
      cfg.smtpFrom asciiUnicode "ceo@dmcn.localhost" = "ceo@bridge.localhost" ∧
      cfg.recipient asciiUnicode (cfg.smtpFrom asciiUnicode "ceo@x@dmcn.localhost") =
        "ceo@dmcn.localhost" := by
  have hnested : domainOf asciiUnicode "ceo@x@dmcn.localhost" = "dmcn.localhost" := by decide
  have hceo : domainOf asciiUnicode "ceo@dmcn.localhost" = "dmcn.localhost" := by decide
  have hfrom : cfg.smtpFrom asciiUnicode "ceo@x@dmcn.localhost" = "ceo@bridge.localhost" := by
    rw [smtpFrom_of_domainOf hnested]
    decide
  refine ⟨by decide, senderAuthorized_of_domainOf hnested, hfrom, ?_, ?_⟩
  · rw [smtpFrom_of_domainOf hceo]
    decide
  · rw [hfrom]
    decide

end Namesake

end Dmcn.Bridge
