import OpenDmcn.Identity.Credential
import OpenDmcn.Lib.FirstMatch
import Mathlib.Data.Int.ConditionallyCompleteOrder
import Mathlib.Order.WithBot

/-! What a blocklist revokes (`Blocked` of `credentialblock.go`). Lists grow by entries for keys
that are listed already, and each entry has a cutoff of its own; the first entry of a key is the one
that is asked. -/

namespace Dmcn

open Go

namespace CredentialBlock

def cutoff (b : CredentialBlock) : WithBot ℤ :=
  if b.compromised
    then (if b.compromisedSince.isZero then ⊥ else (b.compromisedSince.nanos : WithBot ℤ))
  else (b.effectiveFrom.nanos : WithBot ℤ)

theorem blocks_iff {b : CredentialBlock} {issuedAt : Time} :
    b.blocks issuedAt = true ↔ b.cutoff ≤ (issuedAt.nanos : WithBot ℤ) := by
  have hnot : ∀ since : Time, (!issuedAt.before since) = true ↔ (since.nanos : WithBot ℤ) ≤
      (issuedAt.nanos : WithBot ℤ) := by
    intro since
    rw [Bool.not_eq_true', Time.before_eq_false_iff, WithBot.coe_le_coe]
  unfold blocks cutoff
  split
  · split
    · exact iff_of_true rfl bot_le
    · exact hnot _
  · exact hnot _

theorem blocks_eq_false_iff {b : CredentialBlock} {issuedAt : Time} :
    b.blocks issuedAt = false ↔ (issuedAt.nanos : WithBot ℤ) < b.cutoff := by
  rw [← Bool.not_eq_true, blocks_iff, not_le]

def reread (b : CredentialBlock) : CredentialBlock where
  pubkey := b.pubkey
  effectiveFrom := b.effectiveFrom.wholeSecond
  compromised := b.compromised
  compromisedSince := timeOrZero (unixOrZero b.compromisedSince)
  createdAt := b.createdAt.wholeSecond

theorem fromProto_toProto (b : CredentialBlock) : fromProto b.toProto = b.reread := by
  unfold fromProto toProto reread
  rw [Time.ofUnix_unix, Time.ofUnix_unix]

theorem cutoff_reread_le (b : CredentialBlock) : b.reread.cutoff ≤ b.cutoff := by
  unfold cutoff reread
  dsimp only
  split
  · cases hzero : (timeOrZero (unixOrZero b.compromisedSince)).isZero with
    | true => exact bot_le
    | false =>
      obtain ⟨hset, hwhole⟩ := timeOrZero_unixOrZero hzero
      rw [hset, hwhole]
      exact WithBot.coe_le_coe.mpr (Time.nanos_wholeSecond_le _)
  · exact WithBot.coe_le_coe.mpr (Time.nanos_wholeSecond_le _)

end CredentialBlock

namespace CredentialBlockList

def entryFor (l : CredentialBlockList) (pub : Bytes) : Option CredentialBlock :=
  l.blocks.find? (·.pubkey == pub)

def EntryBlocks (l : CredentialBlockList) (pub : Bytes) (issuedAt : Time) : Prop :=
  ∃ b ∈ l.blocks, b.pubkey = pub ∧ b.cutoff ≤ (issuedAt.nanos : WithBot ℤ)

/-- No entry for the key blocks at a time at which its first one does not, and none at all is for
the empty key. -/
structure FirstReaches (l : CredentialBlockList) (pub : Bytes) (issuedAt : Time) : Prop where
  first : ∀ first, l.entryFor pub = some first → (issuedAt.nanos : WithBot ℤ) < first.cutoff →
    ∀ b ∈ l.blocks, b.pubkey = pub → (issuedAt.nanos : WithBot ℤ) < b.cutoff
  named : pub = [] → ∀ b ∈ l.blocks, b.pubkey = [] → (issuedAt.nanos : WithBot ℤ) < b.cutoff

def reread (l : CredentialBlockList) : CredentialBlockList :=
  { l with blocks := l.blocks.map CredentialBlock.reread }

theorem fromProtoBytes_marshal (rt : Runtime) (l : CredentialBlockList) :
    fromProtoBytes rt (rt.credentialBlockList.marshalDeterministic l.toProto) = some l.reread := by
  have hblocks : (l.blocks.map CredentialBlock.toProto).map CredentialBlock.fromProto =
      l.blocks.map CredentialBlock.reread := by
    rw [List.map_map]
    exact List.map_congr_left fun b _ => b.fromProto_toProto
  unfold fromProtoBytes
  rw [Codec.unmarshal_deterministic, Option.map_some]
  unfold fromProto toProto reread
  rw [hblocks, Fixed.copy_val]

theorem blockedIn_eq (blocks : List CredentialBlock) (pub : Bytes) (issuedAt : Time) :
    blockedIn blocks pub issuedAt = FirstMatch.first (·.pubkey == pub) (·.blocks issuedAt)
      blocks := by
  induction blocks with
  | nil => rfl
  | cons b rest ih =>
    unfold blockedIn
    by_cases hkey : (b.pubkey == pub) = true
    · have hfind : (b :: rest).find? (·.pubkey == pub) = some b := List.find?_cons_of_pos hkey
      rw [if_pos hkey, FirstMatch.first_of_find hfind]
    · have hfind : (b :: rest).find? (·.pubkey == pub) = rest.find? (·.pubkey == pub) :=
        List.find?_cons_of_neg hkey
      rw [if_neg hkey, ih, FirstMatch.first, FirstMatch.first, hfind]

variable {l : CredentialBlockList}

theorem entryBlocks_iff {pub : Bytes} {issuedAt : Time} :
    l.EntryBlocks pub issuedAt ↔ FirstMatch.Any (·.pubkey == pub) (·.blocks issuedAt) l.blocks := by
  unfold EntryBlocks FirstMatch.Any
  simp only [beq_iff_eq, CredentialBlock.blocks_iff]

theorem blocked_of_ne {pub : Bytes} (hpub : pub ≠ []) (issuedAt : Time) :
    blocked (some l) pub issuedAt = FirstMatch.first (·.pubkey == pub) (·.blocks issuedAt)
      l.blocks := by
  unfold blocked
  dsimp only
  rw [if_neg (by simpa using hpub), blockedIn_eq]

theorem entryBlocks_of_blocked {pub : Bytes} {issuedAt : Time}
    (h : blocked (some l) pub issuedAt = true) : l.EntryBlocks pub issuedAt := by
  by_cases hpub : pub = []
  · rw [hpub] at h
    cases h
  · rw [blocked_of_ne hpub] at h
    exact entryBlocks_iff.mpr (FirstMatch.any_of_first h)

theorem blocked_iff_entryBlocks_iff {pub : Bytes} {issuedAt : Time} :
    (blocked (some l) pub issuedAt = true ↔ l.EntryBlocks pub issuedAt) ↔
      l.FirstReaches pub issuedAt := by
  by_cases hpub : pub = []
  · have hblocked : blocked (some l) pub issuedAt = false := by rw [hpub]; rfl
    constructor
    · intro h
      have hnone : ∀ b ∈ l.blocks, b.pubkey = pub → (issuedAt.nanos : WithBot ℤ) < b.cutoff := by
        intro b hb hkey
        by_contra hle
        have htrue := h.mpr ⟨b, hb, hkey, not_lt.mp hle⟩
        rw [hblocked] at htrue
        cases htrue
      exact ⟨fun _ _ _ => hnone, fun _ => hpub ▸ hnone⟩
    · intro h
      refine iff_of_false (by simp [hblocked]) ?_
      rintro ⟨b, hb, hkey, hle⟩
      exact absurd hle (not_le.mpr (h.named hpub b hb (hkey.trans hpub)))
  · rw [blocked_of_ne hpub, entryBlocks_iff, FirstMatch.first_iff_any_iff]
    simp only [CredentialBlock.blocks_eq_false_iff, beq_iff_eq]
    exact ⟨fun h => ⟨h, fun hnil => absurd hnil hpub⟩, fun h => h.first⟩

theorem blocked_reread {pub : Bytes} {issuedAt : Time} (h : blocked (some l) pub issuedAt = true)
    : blocked (some l.reread) pub issuedAt = true := by
  by_cases hpub : pub = []
  · rw [hpub] at h
    cases h
  · rw [blocked_of_ne hpub] at h ⊢
    have hkey : ((fun b : CredentialBlock => b.pubkey == pub) ∘ CredentialBlock.reread) = fun b =>
        b.pubkey == pub := rfl
    unfold FirstMatch.first at h ⊢
    unfold reread
    rw [List.find?_map, hkey]
    cases hfind : l.blocks.find? (·.pubkey == pub) with
    | none =>
      rw [hfind] at h
      cases h
    | some b =>
      rw [hfind] at h
      exact CredentialBlock.blocks_iff.mpr
        (b.cutoff_reread_le.trans (CredentialBlock.blocks_iff.mp h))

/-- A list revokes what its entries revoke at exactly the keys and times at which the first entry of
the key reaches as far as any other. Between lists of which this holds the order and the number of
the entries do not count, and one that has more entries unblocks nothing, written and read again
either. -/
theorem blocked_union_iff (rt : Runtime) (l l' : CredentialBlockList) (pub : Bytes)
    (issuedAt : Time) :
    ((blocked (some l) pub issuedAt = true ↔ l.EntryBlocks pub issuedAt) ↔
      l.FirstReaches pub issuedAt) ∧
    (l.blocks ⊆ l'.blocks → l'.FirstReaches pub issuedAt → blocked (some l) pub issuedAt = true →
      blocked (some l') pub issuedAt = true ∧
        ∃ read, fromProtoBytes rt (rt.credentialBlockList.marshalDeterministic l'.toProto) =
          some read ∧ blocked (some read) pub issuedAt = true) := by
  refine ⟨blocked_iff_entryBlocks_iff, fun hsub hreaches hblocked => ?_⟩
  have hentry : l'.EntryBlocks pub issuedAt :=
    entryBlocks_iff.mpr ((entryBlocks_iff.mp (entryBlocks_of_blocked hblocked)).mono hsub)
  have hblocked' := (blocked_iff_entryBlocks_iff.mpr hreaches).mpr hentry
  exact ⟨hblocked', l'.reread, fromProtoBytes_marshal rt l', blocked_reread hblocked'⟩

/-! A key that was retired and is found to be stolen afterwards. -/
namespace Stolen

def key : Bytes := List.replicate 32 7

def retired : CredentialBlock := ⟨key, Time.ofUnix 200, false, default, Time.ofUnix 200⟩

def stolen : CredentialBlock := ⟨key, Time.ofUnix 300, true, default, Time.ofUnix 300⟩

def listOf (blocks : List CredentialBlock) : CredentialBlockList :=
  ⟨"example.org", blocks, 1, .zero 64⟩

theorem cutoff_stolen : stolen.cutoff = ⊥ := rfl

/-- The entry that was added blocks the credential and the list does not; with the two the other way
round it does. -/
theorem appended_not_blocked : blocked (some (listOf [retired, stolen])) key
    (Time.ofUnix 100) = false ∧ (listOf [retired, stolen]).EntryBlocks key (Time.ofUnix 100) ∧
    blocked (some (listOf [stolen, retired])) key (Time.ofUnix 100) = true := by
  refine ⟨by decide, ⟨stolen, ?_, rfl, ?_⟩, by decide⟩
  · exact List.mem_cons_of_mem _ (List.mem_singleton.mpr rfl)
  · rw [cutoff_stolen]
    exact bot_le

theorem firstReaches (rest : List CredentialBlock) : (listOf (stolen :: rest)).FirstReaches key
    (Time.ofUnix 100) := by
  refine ⟨fun first hfirst hlt => ?_, fun hkey => absurd hkey (List.cons_ne_nil _ _)⟩
  have hstolen : (listOf (stolen :: rest)).entryFor key = some stolen := by
    unfold entryFor listOf
    exact List.find?_cons_of_pos (beq_self_eq_true key)
  rw [← Option.some.inj (hstolen.symm.trans hfirst), cutoff_stolen] at hlt
  exact absurd bot_le (not_le.mpr hlt)

/-- Put in front, the entry counts, and the other one twice changes nothing. -/
theorem stolen_first : (blocked (some (listOf [stolen, retired])) key (Time.ofUnix 100) = true ↔
      (listOf [stolen, retired]).EntryBlocks key (Time.ofUnix 100)) ∧
    ∀ rt, blocked (some (listOf [stolen, retired, retired])) key (Time.ofUnix 100) = true ∧
      ∃ read, fromProtoBytes rt (rt.credentialBlockList.marshalDeterministic
          (listOf [stolen, retired, retired]).toProto) = some read ∧
        blocked (some read) key (Time.ofUnix 100) = true := by
  have hsub : (listOf [stolen, retired]).blocks ⊆ (listOf [stolen, retired, retired]).blocks :=
    List.cons_subset_cons _ (List.subset_cons_self _ _)
  refine ⟨blocked_iff_entryBlocks_iff.mpr (firstReaches _), fun rt => ?_⟩
  exact (blocked_union_iff rt (listOf [stolen, retired]) _ _ _).2 hsub (firstReaches _) (by decide)

end Stolen

end CredentialBlockList

end Dmcn
