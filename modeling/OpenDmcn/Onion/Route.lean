import OpenDmcn.Lib.Greedy
import OpenDmcn.Lib.Shuffle
import OpenDmcn.Lib.Guard
import OpenDmcn.Onion.Packet

/-! Route selection (`onion/route.go`). The relays in front of the exit are taken greedily from a
shuffled list, each if its peer, its subnet and its domain are not in use. The guard is taken first,
whatever it shares with the exit; and the greedy choice can end short of a route that another order
of the list would have come to. -/

namespace Dmcn

open Go Guard Greedy

structure RelayDescriptor where
  peerID : String
  x25519Public : Fixed 32
  multiaddrs : List String
  domain : String
  deriving DecidableEq

structure RouteOptions where
  hops : ℤ
  relaxed : Bool
  guard : String

def defaultHops : ℕ := 3

def RouteOptions.length (opts : RouteOptions) : ℕ :=
  if opts.hops ≤ 0 then defaultHops else opts.hops.toNat

inductive RouteError where
  | exitUnknown | tooFewRelays (need have' : ℕ) | notDiverse (need : ℕ)
  deriving DecidableEq

section Select

-- the IPv4 address that `go-multiaddr` finds in an address, if it is one
variable (ip4 : String → Option String)

def beforeLastDot (ip : String) : Option String :=
  let rest := ip.toList.reverse.dropWhile (· ≠ '.')
  if rest.length > 1 then some (String.ofList (rest.drop 1).reverse) else none

def subnetOf (d : RelayDescriptor) : String :=
  (d.multiaddrs.findSome? fun m => (ip4 m).bind beforeLastDot).getD ("peer:" ++ d.peerID)

structure Used where
  peers : List String
  subnets : List String
  domains : List String

def Used.reserve (u : Used) (d : RelayDescriptor) : Used :=
  ⟨d.peerID :: u.peers, subnetOf ip4 d :: u.subnets, if d.domain ≠ "" then d.domain :: u.domains
    else u.domains⟩

def Used.admits (u : Used) (relaxed : Bool) (c : RelayDescriptor) : Bool :=
  !u.peers.contains c.peerID &&
    (relaxed || (!u.subnets.contains (subnetOf ip4 c) &&
      !(c.domain ≠ "" && u.domains.contains c.domain)))

def fillHops (relaxed : Bool) : ℕ → Used → List RelayDescriptor → List RelayDescriptor
  | _, _, [] => []
  | 0, _, _ :: _ => []
  | left + 1, u, c :: pool =>
    if u.admits ip4 relaxed c then c :: fillHops relaxed left (u.reserve ip4 c) pool
      else fillHops relaxed (left + 1)
        u pool

def pinGuard (opts : RouteOptions) (exitPeerID : String) (pool : List RelayDescriptor) :
    List RelayDescriptor × List RelayDescriptor :=
  if opts.length > 1 ∧ opts.guard ≠ "" ∧ opts.guard ≠ exitPeerID then
    match pool.find? fun d => d.peerID = opts.guard with
    | some g => ([g], pool.eraseP fun d => d.peerID = opts.guard)
    | none => ([], pool)
  else ([], pool)

def exitOf (candidates : List RelayDescriptor) (exitPeerID : String) : Option RelayDescriptor :=
  (candidates.filter fun d => d.peerID = exitPeerID).getLast?

def poolOf (candidates : List RelayDescriptor) (exitPeerID : String) : List RelayDescriptor :=
  candidates.filter fun d => d.peerID ≠ exitPeerID

def RelayDescriptor.hop (d : RelayDescriptor) : Onion.Hop := ⟨d.peerID, d.x25519Public⟩

def selectRelays (draw : ℕ → ℕ) (candidates : List RelayDescriptor) (exitPeerID : String)
    (opts : RouteOptions) :
    Except RouteError (List RelayDescriptor) := do
  let hops := opts.length
  let exit ← need (exitOf candidates exitPeerID) .exitUnknown
  let pool := poolOf candidates exitPeerID
  refuse (pool.length + 1 < hops) (.tooFewRelays hops (pool.length + 1))
  let pool := Shuffle.shuffle draw pool
  let (chosen, pool) := pinGuard opts exitPeerID pool
  let used := (exit :: chosen).foldl (Used.reserve ip4) ⟨[], [], []⟩
  let chosen := chosen ++ fillHops ip4 opts.relaxed (hops - 1 - chosen.length) used pool
  refuse (chosen.length < hops - 1) (.notDiverse hops)
  return chosen ++ [exit]

def selectRoute (draw : ℕ → ℕ) (candidates : List RelayDescriptor) (exitPeerID : String)
    (opts : RouteOptions) :
    Except RouteError (List Onion.Hop) :=
  (selectRelays ip4 draw candidates exitPeerID opts).map fun relays =>
    relays.map RelayDescriptor.hop

end Select

section Diversity

/-- Two relays that may be on one route: other peers, other subnets, and not one domain. -/
structure Diverse (ip4 : String → Option String) (c d : RelayDescriptor) : Prop where
  peer : c.peerID ≠ d.peerID
  subnet : subnetOf ip4 c ≠ subnetOf ip4 d
  domain : c.domain = "" ∨ c.domain ≠ d.domain

variable {ip4 : String → Option String} {c d : RelayDescriptor}

theorem diverse_iff : Diverse ip4 c d ↔ c.peerID ≠ d.peerID ∧ subnetOf ip4 c ≠ subnetOf ip4 d ∧
    (c.domain = "" ∨ c.domain ≠ d.domain) :=
  ⟨fun h => ⟨h.peer, h.subnet, h.domain⟩, fun h => ⟨h.1, h.2.1, h.2.2⟩⟩

instance : DecidableRel (Diverse ip4) := fun _ _ => decidable_of_iff _ diverse_iff.symm

theorem Diverse.symm (c d : RelayDescriptor) (h : Diverse ip4 c d) : Diverse ip4 d c := by
  refine ⟨h.peer.symm, h.subnet.symm, ?_⟩
  by_cases hd : d.domain = ""
  · exact .inl hd
  · right
    intro heq
    rcases h.domain with hc | hne
    · exact hd (heq.trans hc)
    · exact hne heq.symm

theorem Diverse.irrefl (c : RelayDescriptor) : ¬ Diverse ip4 c c := fun h => h.peer rfl

structure Used.Of (ip4 : String → Option String) (u : Used) (base : List RelayDescriptor) :
    Prop where
  peers : ∀ s, s ∈ u.peers ↔ ∃ b ∈ base, b.peerID = s
  subnets : ∀ s, s ∈ u.subnets ↔ ∃ b ∈ base, subnetOf ip4 b = s
  domains : ∀ s, s ∈ u.domains ↔ ∃ b ∈ base, b.domain ≠ "" ∧ b.domain = s

theorem Used.of_empty : Used.Of ip4 ⟨[], [], []⟩ [] := ⟨by simp, by simp, by simp⟩

variable {base : List RelayDescriptor}

theorem Used.Of.reserve {u : Used} (h : u.Of ip4 base) (d : RelayDescriptor) :
    (u.reserve ip4 d).Of ip4 (d :: base) := by
  refine ⟨fun s => ?_, fun s => ?_, fun s => ?_⟩
  · simp only [Used.reserve, List.mem_cons, h.peers, exists_eq_or_imp]
    exact or_congr eq_comm Iff.rfl
  · simp only [Used.reserve, List.mem_cons, h.subnets, exists_eq_or_imp]
    exact or_congr eq_comm Iff.rfl
  · simp only [Used.reserve, List.mem_cons, exists_eq_or_imp]
    split
    · next hd =>
      rw [List.mem_cons, h.domains]
      exact or_congr ⟨fun heq => ⟨hd, heq.symm⟩, fun heq => heq.2.symm⟩ Iff.rfl
    · next hd =>
      rw [h.domains]
      exact ⟨.inr, fun hs => hs.resolve_left fun hempty => hd hempty.1⟩

theorem Used.Of.admits_iff {u : Used} (h : u.Of ip4 base) :
    u.admits ip4 false c = true ↔ ∀ b ∈ base, Diverse ip4 c b := by
  have hpeer : c.peerID ∉ u.peers ↔ ∀ b ∈ base, c.peerID ≠ b.peerID := by
    rw [h.peers]
    exact ⟨fun hnone b hb heq => hnone ⟨b, hb, heq.symm⟩, fun hall ⟨b, hb, heq⟩ =>
      hall b hb heq.symm⟩
  have hsubnet : subnetOf ip4 c ∉ u.subnets ↔ ∀ b ∈ base, subnetOf ip4 c ≠ subnetOf ip4 b := by
    rw [h.subnets]
    exact ⟨fun hnone b hb heq => hnone ⟨b, hb, heq.symm⟩, fun hall ⟨b, hb, heq⟩ =>
      hall b hb heq.symm⟩
  have hdomain : ¬ (c.domain ≠ "" ∧ c.domain ∈ u.domains) ↔ ∀ b ∈ base, c.domain = "" ∨
      c.domain ≠ b.domain := by
    rw [h.domains]
    constructor
    · intro hfree b hb
      by_cases hc : c.domain = ""
      · exact .inl hc
      · refine .inr fun heq => hfree ⟨hc, b, hb, ?_, heq.symm⟩
        exact fun hb => hc (heq.trans hb)
    · rintro hall ⟨hc, b, hb, _, heq⟩
      rcases hall b hb with hc' | hne
      · exact hc hc'
      · exact hne heq.symm
  simp only [diverse_iff, forall_and, ← hpeer, ← hsubnet, ← hdomain]
  simp only [Used.admits, Bool.false_or, Bool.and_eq_true, Bool.not_eq_true', List.contains_eq_mem,
      decide_eq_false_iff_not,
    Bool.and_eq_false_imp, decide_eq_true_eq, not_and]

theorem fillHops_eq_greedy {u : Used} (h : u.Of ip4 base) (left : ℕ) (pool : List RelayDescriptor)
    : fillHops ip4 false left u pool = greedy (Diverse ip4) left base
    pool := by
  induction pool generalizing left u base with
  | nil => rw [fillHops, greedy]
  | cons c pool ih =>
    cases left with
    | zero => rw [fillHops, greedy]
    | succ left =>
      rw [fillHops, greedy]
      by_cases hc : u.admits ip4 false c = true
      · rw [if_pos hc, if_pos (h.admits_iff.mp hc), ih (h.reserve c)]
      · rw [if_neg hc, if_neg (fun hall => hc (h.admits_iff.mpr hall)), ih h]

theorem Used.Of.congr {u : Used} {base base' : List RelayDescriptor} (h : u.Of ip4 base)
    (hsame : ∀ b, b ∈ base ↔ b ∈
    base') :
    u.Of ip4 base' := by
  refine ⟨fun s => ?_, fun s => ?_, fun s => ?_⟩
  · simpa only [hsame] using h.peers s
  · simpa only [hsame] using h.subnets s
  · simpa only [hsame] using h.domains s

theorem Used.Of.foldl {u : Used} (h : u.Of ip4 base) (l : List RelayDescriptor) :
    (l.foldl (Used.reserve ip4) u).Of ip4 (l.reverse ++ base) := by
  induction l generalizing u base with
  | nil => exact h
  | cons d l ih =>
    rw [List.foldl_cons, List.reverse_cons, List.append_assoc]
    exact ih (h.reserve d)

end Diversity

section Pinned

variable {opts : RouteOptions} {exitPeerID : String} {pool front : List RelayDescriptor}

def RouteOptions.Pins (opts : RouteOptions) (exitPeerID : String) (g : RelayDescriptor) : Prop :=
  opts.length > 1 ∧ opts.guard ≠ "" ∧ opts.guard ≠ exitPeerID ∧ g.peerID = opts.guard

/-- What a route begins with before anything is drawn: the guard, if one is asked for and there. -/
def Starts (opts : RouteOptions) (exitPeerID : String) (pool front : List RelayDescriptor) : Prop :=
  (∃ g ∈ pool, opts.Pins exitPeerID g ∧ front = [g]) ∨
    ((∀ g ∈ pool, ¬ opts.Pins exitPeerID g) ∧ front = [])

theorem Starts.subset (h : Starts opts exitPeerID pool front) : front ⊆ pool := by
  rcases h with ⟨g, hg, _, rfl⟩ | ⟨_, rfl⟩
  · intro d hd
    exact List.mem_singleton.mp hd ▸ hg
  · exact List.nil_subset pool

theorem Starts.length_le (h : Starts opts exitPeerID pool front) :
    front.length ≤ opts.length - 1 := by
  rcases h with ⟨g, _, hpin, rfl⟩ | ⟨_, rfl⟩
  · have hlength := hpin.1
    rw [List.length_singleton]
    omega
  · exact Nat.zero_le _

theorem Starts.pairwise {R : RelayDescriptor → RelayDescriptor → Prop}
    (h : Starts opts exitPeerID pool front) :
    front.Pairwise R := by
  rcases h with ⟨g, _, _, rfl⟩ | ⟨_, rfl⟩
  · exact List.pairwise_singleton R g
  · exact List.Pairwise.nil

theorem pinGuard_starts (opts : RouteOptions) (exitPeerID : String) {l : List RelayDescriptor}
    (hperm : l.Perm pool) :
    Starts opts exitPeerID pool (pinGuard opts exitPeerID l).1 ∧
      (pinGuard opts exitPeerID l).2.Perm (pool.diff (pinGuard opts exitPeerID l).1) := by
  unfold pinGuard
  split
  · next hasked =>
    split
    · next g hfind =>
      have hmem : g ∈ l := List.mem_of_find?_eq_some hfind
      have hpeer : g.peerID = opts.guard := by simpa using List.find?_some hfind
      refine ⟨.inl ⟨g, hperm.subset hmem, ⟨hasked.1, hasked.2.1, hasked.2.2, hpeer⟩, rfl⟩, ?_⟩
      obtain ⟨_, before, after, hl, hbefore⟩ := List.find?_eq_some_iff_append.mp hfind
      have herase : (l.eraseP fun d => d.peerID = opts.guard) = before ++ after := by
        rw [hl, List.eraseP_append_right, List.eraseP_cons_of_pos]
        · exact decide_eq_true hpeer
        · intro d hd
          simpa using hbefore d hd
      have hfront : l.Perm (g :: (before ++ after)) := hl ▸ List.perm_middle
      rw [herase, List.diff_cons, List.diff_nil]
      exact List.cons_perm_iff_perm_erase.mp (hfront.symm.trans hperm) |>.2
    · next hfind =>
      refine ⟨.inr ⟨fun g hg hpin => ?_, rfl⟩, ?_⟩
      · have hother := List.find?_eq_none.mp hfind g (hperm.symm.subset hg)
        exact hother (decide_eq_true hpin.2.2.2)
      · exact hperm
  · next hasked =>
    refine ⟨.inr ⟨fun g _ hpin => hasked ⟨hpin.1, hpin.2.1, hpin.2.2.1⟩, rfl⟩, ?_⟩
    exact hperm

theorem Starts.exists_perm {rest : List RelayDescriptor} (h : Starts opts exitPeerID pool front)
    (hperm : rest.Perm (pool.diff front)) : ∃ l, l.Perm pool ∧ pinGuard opts exitPeerID l =
    (front, rest) := by
  rcases h with ⟨g, hg, hpin, rfl⟩ | ⟨hnone, rfl⟩
  · rw [List.diff_cons, List.diff_nil] at hperm
    refine ⟨g :: rest, (hperm.cons g).trans (List.perm_cons_erase hg).symm, ?_⟩
    unfold pinGuard
    have hfind : (g :: rest).find? (fun d => d.peerID = opts.guard) = some g := by simp [hpin.2.2.2]
    have herase : ((g :: rest).eraseP fun d => d.peerID = opts.guard) = rest := by simp [hpin.2.2.2]
    rw [if_pos ⟨hpin.1, hpin.2.1, hpin.2.2.1⟩, hfind, herase]
  · refine ⟨rest, hperm, ?_⟩
    unfold pinGuard
    split
    · next hasked =>
      have hfind : rest.find? (fun d => d.peerID = opts.guard) = none := by
        rw [List.find?_eq_none]
        intro g hg hpeer
        exact hnone g (hperm.subset hg) ⟨hasked.1, hasked.2.1, hasked.2.2, of_decide_eq_true hpeer⟩
      rw [hfind]
    · rfl

end Pinned

section Routes

variable (ip4 : String → Option String)

/-- A route of `n` relays to the exit: diverse candidates, of which the last is the exit. -/
structure IsRoute (candidates : List RelayDescriptor) (exitPeerID : String) (n : ℕ)
    (route : List RelayDescriptor) :
    Prop where
  length : route.length = n
  subset : route ⊆ candidates
  exit : route.getLast?.map RelayDescriptor.peerID = some exitPeerID
  diverse : route.Pairwise (Diverse ip4)

variable {ip4} {candidates route : List RelayDescriptor} {exitPeerID : String} {n : ℕ}
  {opts : RouteOptions}
  {exit : RelayDescriptor}

theorem mem_poolOf {d : RelayDescriptor} : d ∈ poolOf candidates exitPeerID ↔ d ∈ candidates ∧
    d.peerID ≠ exitPeerID
    := by
  rw [poolOf, List.mem_filter, decide_eq_true_eq]

theorem exitOf_spec (h : exitOf candidates exitPeerID = some exit) : exit ∈ candidates ∧
    exit.peerID = exitPeerID := by
  have hmem := List.mem_of_getLast? h
  rwa [List.mem_filter, decide_eq_true_eq] at hmem

theorem IsRoute.split (h : IsRoute ip4 candidates exitPeerID n route) :
    ∃ front last, route = front ++ [last] ∧ last ∈ candidates ∧ last.peerID = exitPeerID ∧
      front ⊆ poolOf candidates exitPeerID ∧ front.Nodup := by
  obtain ⟨last, hlast, hpeer⟩ := Option.map_eq_some_iff.mp h.exit
  obtain ⟨front, rfl⟩ := List.getLast?_eq_some_iff.mp hlast
  obtain ⟨hfront, _, happart⟩ := List.pairwise_append.mp h.diverse
  refine ⟨front, last, rfl, h.subset (by simp), hpeer, ?_, ?_⟩
  · intro d hd
    have hdiverse := happart d hd last (List.mem_singleton_self last)
    exact mem_poolOf.mpr ⟨h.subset (List.mem_append_left _ hd), hpeer ▸ hdiverse.peer⟩
  · apply hfront.imp
    rintro a b hab rfl
    exact hab.peer rfl

theorem IsRoute.exitOf_isSome (h : IsRoute ip4 candidates exitPeerID n route) :
    exitOf candidates exitPeerID ≠ none :=
    by
  obtain ⟨_, last, _, hmem, hpeer, _⟩ := h.split
  intro hnone
  have hempty := List.getLast?_eq_none_iff.mp hnone
  have hfilter : last ∈ candidates.filter fun d => d.peerID = exitPeerID :=
    List.mem_filter.mpr ⟨hmem, decide_eq_true
      hpeer⟩
  rw [hempty] at hfilter
  exact List.not_mem_nil hfilter

theorem IsRoute.le_pool (h : IsRoute ip4 candidates exitPeerID n route) :
    n ≤ (poolOf candidates exitPeerID).length +
    1 := by
  obtain ⟨front, last, rfl, _, _, hpool, hnodup⟩ := h.split
  have hle : front.length ≤ (poolOf candidates exitPeerID).length :=
    (List.subperm_of_subset hnodup hpool).length_le
  have hlength := h.length
  rw [List.length_append, List.length_singleton] at hlength
  omega

theorem isRoute_iff {front S : List RelayDescriptor}
    (hexit : exitOf candidates exitPeerID = some exit)
    (hstart : Starts opts exitPeerID (poolOf candidates exitPeerID) front)
    (hS : Choice (Diverse ip4) (exit :: front) ((poolOf candidates exitPeerID).diff front) S)
    (hsize : front.length + S.length + 1 = n) :
    IsRoute ip4 candidates exitPeerID n (front ++ S ++ [exit]) ↔ ∀ g ∈ front,
      Diverse ip4 g exit := by
  obtain ⟨hmem, hpeer⟩ := exitOf_spec hexit
  have hpool : ∀ d, d ∈ poolOf candidates exitPeerID → d ∈ candidates :=
    fun d hd => (mem_poolOf.mp hd).1
  constructor
  · intro h g hg
    obtain ⟨_, _, hapart⟩ := List.pairwise_append.mp h.diverse
    exact hapart g (List.mem_append_left S hg) exit (List.mem_singleton_self exit)
  · intro hfront
    refine ⟨?_, ?_, ?_, ?_⟩
    · rw [List.length_append, List.length_append, List.length_singleton, hsize]
    · intro d hd
      rcases List.mem_append.mp hd with hd | hd
      · rcases List.mem_append.mp hd with hd | hd
        · exact hpool d (hstart.subset hd)
        · exact hpool d (List.diff_subset _ _ (hS.subset hd))
      · exact List.mem_singleton.mp hd ▸ hmem
    · rw [List.getLast?_concat, Option.map_some, hpeer]
    · rw [List.pairwise_append, List.pairwise_append]
      refine ⟨⟨hstart.pairwise, hS.pairwise, ?_⟩, List.pairwise_singleton _ _, ?_⟩
      · intro g hg c hc
        exact Diverse.symm c g (hS.apart c hc g (List.mem_cons_of_mem exit hg))
      · intro c hc d hd
        rw [List.mem_singleton.mp hd]
        rcases List.mem_append.mp hc with hc | hc
        · exact hfront c hc
        · exact hS.apart c hc exit List.mem_cons_self

variable {draw : ℕ → ℕ}

theorem selectRelays_eq (ip4 : String → Option String) {front rest : List RelayDescriptor}
    (hrelaxed :
    opts.relaxed = false)
    (hexit : exitOf candidates exitPeerID = some exit)
    (hmany : opts.length ≤ (poolOf candidates exitPeerID).length + 1)
    (hpin : pinGuard opts exitPeerID (Shuffle.shuffle draw (poolOf candidates exitPeerID)) =
      (front, rest)) :
    selectRelays ip4 draw candidates exitPeerID opts =
      if front.length +
      (greedy (Diverse ip4) (opts.length - 1 - front.length) (exit :: front) rest).length <
          opts.length - 1
      then .error (.notDiverse opts.length)
      else .ok (front ++ greedy (Diverse ip4) (opts.length - 1 - front.length) (exit :: front)
        rest ++ [exit]) := by
  have hused : ((exit :: front).foldl (Used.reserve ip4) ⟨[], [], []⟩).Of ip4 (exit :: front) := by
    refine (Used.of_empty.foldl (exit :: front)).congr fun b => ?_
    rw [List.append_nil, List.mem_reverse]
  unfold selectRelays
  rw [hexit, need, ok_bind]
  dsimp only
  rw [refuse, if_neg (Nat.not_lt.mpr hmany), ok_bind, hpin]
  dsimp only
  rw [hrelaxed, fillHops_eq_greedy hused, List.length_append, refuse]
  split
  · rfl
  · rfl

theorem RouteOptions.length_pos (opts : RouteOptions) : 0 < opts.length := by
  unfold RouteOptions.length
  split
  · exact Nat.succ_pos 2
  · omega

theorem Starts.length_rest {pool front : List RelayDescriptor}
    (h : Starts opts exitPeerID pool front) :
    front.length + (pool.diff front).length = pool.length := by
  rcases h with ⟨g, hg, _, rfl⟩ | ⟨_, rfl⟩
  · have hpos : 0 < pool.length := List.length_pos_of_mem hg
    rw [List.diff_cons, List.diff_nil, List.length_erase_of_mem hg, List.length_singleton]
    omega
  · rw [List.diff_nil, List.length_nil, Nat.zero_add]

theorem selectRelays_unknown (hexit : exitOf candidates exitPeerID = none) :
    selectRelays ip4 draw candidates exitPeerID opts = .error .exitUnknown := by
  unfold selectRelays
  rw [hexit]
  rfl

theorem selectRelays_few (hexit : exitOf candidates exitPeerID = some exit)
    (hfew : (poolOf candidates exitPeerID).length + 1 < opts.length) :
    selectRelays ip4 draw candidates exitPeerID opts =
      .error (.tooFewRelays opts.length ((poolOf candidates exitPeerID).length + 1)) := by
  unfold selectRelays
  rw [hexit, need, ok_bind]
  dsimp only
  rw [refuse, if_pos hfew]
  rfl

/-- What is selected is a route to the exit. An error means that there is none, of those that are
wanted. -/
structure Selects (ip4 : String → Option String) (wanted : List RelayDescriptor → Prop)
    (draw : ℕ → ℕ) (candidates : List RelayDescriptor) (exitPeerID : String) (opts : RouteOptions) :
    Prop where
  sound : ∀ hops, selectRoute ip4 draw candidates exitPeerID opts = .ok hops →
    ∃ route, selectRelays ip4 draw candidates exitPeerID opts = .ok route ∧
      hops = route.map RelayDescriptor.hop ∧
      IsRoute ip4 candidates exitPeerID opts.length route
  complete : ∀ e, selectRoute ip4 draw candidates exitPeerID opts = .error e →
    ¬ ∃ route, IsRoute ip4 candidates exitPeerID opts.length route ∧ wanted route

theorem Selects.of_ok {wanted : List RelayDescriptor → Prop}
    (h : selectRelays ip4 draw candidates exitPeerID opts = .ok route) :
    Selects ip4 wanted draw candidates exitPeerID opts ↔
      IsRoute ip4 candidates exitPeerID opts.length route := by
  have hroute : selectRoute ip4 draw candidates exitPeerID opts =
      .ok (route.map RelayDescriptor.hop) := by
    rw [selectRoute, h]
    rfl
  constructor
  · intro hselects
    obtain ⟨route', hroute', _, his⟩ := hselects.sound _ hroute
    rw [h] at hroute'
    exact Except.ok.inj hroute' ▸ his
  · intro his
    refine ⟨fun hops hhops => ⟨route, h, ?_, his⟩, fun e he => ?_⟩
    · rw [hroute] at hhops
      exact (Except.ok.inj hhops).symm
    · rw [hroute] at he
      exact nomatch he

theorem Selects.of_error {wanted : List RelayDescriptor → Prop} {e : RouteError}
    (h : selectRelays ip4 draw candidates exitPeerID opts = .error e) :
    Selects ip4 wanted draw candidates exitPeerID opts ↔
      ¬ ∃ route, IsRoute ip4 candidates exitPeerID opts.length route ∧ wanted route := by
  have hroute : selectRoute ip4 draw candidates exitPeerID opts = .error e := by
    rw [selectRoute, h]
    rfl
  constructor
  · exact fun hselects => hselects.complete e hroute
  · intro hnone
    refine ⟨fun hops hhops => ?_, fun _ _ => hnone⟩
    rw [hroute] at hhops
    exact nomatch hhops

theorem Starts.exists_draw {front rest : List RelayDescriptor}
    (hstart : Starts opts exitPeerID (poolOf candidates
    exitPeerID) front)
    (hperm : rest.Perm ((poolOf candidates exitPeerID).diff front)) :
    ∃ draw : ℕ → ℕ, (∀ i, draw i ≤ i) ∧
      pinGuard opts exitPeerID (Shuffle.shuffle draw (poolOf candidates exitPeerID)) =
      (front, rest) := by
  obtain ⟨l, hl, hpin⟩ := hstart.exists_perm hperm
  obtain ⟨draw, hdraw, hshuffle⟩ := Shuffle.exists_shuffle hl
  exact ⟨draw, hdraw, by rw [hshuffle, hpin]⟩

/-- Over all draws, a route is selected if there is one, and nothing else is, exactly if two things
hold of the candidates. Where the rest could be filled, the guard is diverse from the exit; and if
there is a wanted route, no set of diverse relays beside the guard and the exit ends short of the
hops. -/
theorem selectRoute_correct_iff (ip4 : String → Option String)
    (wanted : List RelayDescriptor → Prop) (candidates : List RelayDescriptor) (exitPeerID : String)
    (hops : ℤ) (guard : String) :
    (∀ draw : ℕ → ℕ, (∀ i, draw i ≤ i) →
      Selects ip4 wanted draw candidates exitPeerID ⟨hops, false, guard⟩) ↔
      ∀ exit front, exitOf candidates exitPeerID = some exit →
        Starts ⟨hops, false, guard⟩ exitPeerID (poolOf candidates exitPeerID) front →
        ((∃ S, Choice (Diverse ip4) (exit :: front) ((poolOf candidates exitPeerID).diff front) S ∧
            front.length + S.length + 1 = RouteOptions.length ⟨hops, false, guard⟩) → ∀ g ∈ front,
              Diverse ip4 g exit) ∧
          ((∃ route, IsRoute ip4 candidates exitPeerID (RouteOptions.length ⟨hops, false, guard⟩)
            route ∧ wanted
              route) →
            ∀ S, MaximalChoice (Diverse ip4) (exit :: front)
              ((poolOf candidates exitPeerID).diff front) S →
                RouteOptions.length ⟨hops, false, guard⟩ ≤ front.length + S.length + 1) := by
  have hpos := RouteOptions.length_pos ⟨hops, false, guard⟩
  generalize hopts : (⟨hops, false, guard⟩ : RouteOptions) = opts at hpos ⊢
  have hrelaxed : opts.relaxed = false := hopts ▸ rfl
  clear hopts
  constructor
  · intro hall exit front hexit hstart
    have hfront := hstart.length_le
    constructor
    · rintro ⟨S, hS, hsize⟩
      obtain ⟨rest, hperm, hgreedy⟩ := exists_perm_greedy_eq Diverse.irrefl Diverse.symm hS
        (show S.length ≤ opts.length - 1 - front.length by omega) (.inl (by omega))
      obtain ⟨draw, hdraw, hpin⟩ := hstart.exists_draw hperm
      have hmany : opts.length ≤ (poolOf candidates exitPeerID).length + 1 := by
        have hle : S.length ≤ _ :=
          (List.subperm_of_subset (hS.nodup Diverse.irrefl) hS.subset).length_le
        have hrest := hstart.length_rest
        omega
      have hselected := selectRelays_eq ip4 hrelaxed hexit hmany hpin
      rw [hgreedy, if_neg (by omega)] at hselected
      have hroute := (Selects.of_ok hselected).mp (hall draw hdraw)
      exact (isRoute_iff hexit hstart hS hsize).mp hroute
    · rintro ⟨route, hroute, hwanted⟩ S hS
      by_contra hsmall
      obtain ⟨rest, hperm, hgreedy⟩ := exists_perm_greedy_eq Diverse.irrefl Diverse.symm hS.toChoice
        (show S.length ≤ opts.length - 1 - front.length by omega) (.inr hS)
      obtain ⟨draw, hdraw, hpin⟩ := hstart.exists_draw hperm
      have hselected := selectRelays_eq ip4 hrelaxed hexit hroute.le_pool hpin
      rw [hgreedy, if_pos (by omega)] at hselected
      exact (Selects.of_error hselected).mp (hall draw hdraw) ⟨route, hroute, hwanted⟩
  · intro hcond draw _
    cases hexit : exitOf candidates exitPeerID with
    | none =>
      refine (Selects.of_error (selectRelays_unknown hexit)).mpr ?_
      rintro ⟨route, hroute, _⟩
      exact hroute.exitOf_isSome hexit
    | some exit =>
      by_cases hmany : opts.length ≤ (poolOf candidates exitPeerID).length + 1
      · have hstarts := pinGuard_starts opts exitPeerID
          (Shuffle.shuffle_perm draw (poolOf candidates exitPeerID))
        rcases hpin : pinGuard opts exitPeerID (Shuffle.shuffle draw (poolOf candidates exitPeerID))
          with ⟨front, rest⟩
        rw [hpin] at hstarts
        obtain ⟨hstart, hperm⟩ := hstarts
        dsimp only at hstart hperm
        have hselected := selectRelays_eq ip4 hrelaxed hexit hmany hpin
        obtain ⟨hguard, hlarge⟩ := hcond exit front hexit hstart
        have hfront := hstart.length_le
        have hle := @length_greedy_le _ (Diverse ip4) _ (opts.length - 1 - front.length)
          (exit :: front) rest
        have hS := (greedy_extends (R := Diverse ip4) Diverse.symm (opts.length - 1 - front.length)
          (exit :: front)
            rest).perm
          hperm.symm
        split at hselected
        · next hshort =>
          refine (Selects.of_error hselected).mpr fun hroute => ?_
          have hmaximal :=
            @greedy_maximal _ (Diverse ip4) _ (exit :: front) rest _ Diverse.irrefl Diverse.symm
            (show _ < opts.length - 1 - front.length by omega)
          have hsize := hlarge hroute _ (hmaximal.perm hperm.symm)
          omega
        · next hfull =>
          have hsize : front.length +
              (greedy (Diverse ip4) (opts.length - 1 - front.length) (exit :: front) rest).length +
                1 = opts.length :=
                  by
            omega
          exact (Selects.of_ok hselected).mpr
            ((isRoute_iff hexit hstart hS hsize).mpr (hguard ⟨_, hS, hsize⟩))
      · refine (Selects.of_error (selectRelays_few hexit (Nat.lt_of_not_le hmany))).mpr ?_
        rintro ⟨route, hroute, _⟩
        exact hmany hroute.le_pool

end Routes

section DeadEnds

def leadingIP4 (m : String) : Option String :=
  match m.toList.splitOn '/' with
  | [] :: protocol :: ip :: _ => if protocol = "ip4".toList then some (String.ofList ip) else none
  | _ => none

def relayAt (peerID ip domain : String) : RelayDescriptor :=
  ⟨peerID, Fixed.copy 32 [], ["/ip4/" ++ ip ++
    "/tcp/4001"], domain⟩

/-- Of three relays in front of the exit one shares the subnet of the second and the domain of the
third. If it is taken first no route is found, and the other two are one. And a guard that shares
the exit's domain is on the route with it. -/
theorem greedy_route_errs :
    ¬ Selects leadingIP4 (fun _ => True) id
        [relayAt "a" "10.0.1.1" "a.test", relayAt "b" "10.0.1.2" "b.test",
          relayAt "c" "10.0.2.1" "a.test", relayAt "exit" "10.0.3.1" "exit.test"] "exit"
          ⟨0, false, ""⟩ ∧
      ¬ Selects leadingIP4 (fun _ => True) id
        [relayAt "a" "10.0.1.1" "a.test", relayAt "guard" "10.0.2.1" "exit.test",
          relayAt "exit" "10.0.3.1"
            "exit.test"] "exit"
        ⟨0, false, "guard"⟩ := by
  constructor
  · intro hselects
    have herror : selectRelays leadingIP4 id
        [relayAt "a" "10.0.1.1" "a.test", relayAt "b" "10.0.1.2" "b.test",
          relayAt "c" "10.0.2.1" "a.test", relayAt "exit" "10.0.3.1" "exit.test"] "exit"
            ⟨0, false, ""⟩ = .error (.notDiverse 3) := by
      decide
    refine (Selects.of_error herror).mp hselects
      ⟨[relayAt "b" "10.0.1.2" "b.test", relayAt "c" "10.0.2.1" "a.test",
        relayAt "exit" "10.0.3.1" "exit.test"], ?_,
          trivial⟩
    exact ⟨by decide, by decide, by decide, by decide⟩
  · intro hselects
    have hok : selectRelays leadingIP4 id
        [relayAt "a" "10.0.1.1" "a.test", relayAt "guard" "10.0.2.1" "exit.test",
          relayAt "exit" "10.0.3.1"
            "exit.test"] "exit"
        ⟨0, false, "guard"⟩ =
          .ok [relayAt "guard" "10.0.2.1" "exit.test", relayAt "a" "10.0.1.1" "a.test",
          relayAt "exit" "10.0.3.1" "exit.test"] := by
      decide
    have hroute := (Selects.of_ok hok).mp hselects
    have hapart : ¬ [relayAt "guard" "10.0.2.1" "exit.test", relayAt "a" "10.0.1.1" "a.test",
        relayAt "exit" "10.0.3.1" "exit.test"].Pairwise (Diverse leadingIP4) := by
      decide
    exact hapart hroute.diverse

end DeadEnds

end Dmcn
