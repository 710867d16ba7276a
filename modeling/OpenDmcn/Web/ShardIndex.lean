import OpenDmcn.Lib.Protobuf
import OpenDmcn.Lib.Strings
import OpenDmcn.Web.Drafts

/-! One shard of the search index (`search/shardIndex.ts`): which documents hold which token, and
the bytes it is stored in. Words are cut by the platform (`search/tokenize.ts`, over
`Intl.Segmenter` and the Unicode tables). -/

namespace Dmcn.Web.Search

open Go Drafts Protobuf

structure Platform where
  tokenize : String → List String
  textDecode : Bytes → String

def byteOrderMark : Char := '\uFEFF'

def Plain (t : String) : Prop := t.toList.head? ≠ some byteOrderMark

structure Platform.Lawful (p : Platform) : Prop where
  tokens : ∀ text, ∀ t ∈ p.tokenize text, Plain t
  decode : ∀ t, Plain t → p.textDecode (utf8 t) = t

abbrev Shard := List (String × List ℕ)

def addDoc (list : List ℕ) (doc : ℕ) : List ℕ :=
  match list.getLast? with
  | none => [doc]
  | some last =>
    if last < doc then list ++ [doc]
    else if doc = last then list
    else
      let behind := list.dropWhile (· < doc)
      list.takeWhile (· < doc) ++ (if behind.head? = some doc then behind else doc :: behind)

def addPosting (shard : Shard) (token : String) (doc : ℕ) : Shard :=
  match shard.lookup token with
  | none => shard ++ [(token, [doc])]
  | some list => setEntry shard token (addDoc list doc)

def dropDocs (shard : Shard) (dead : ℕ → Bool) : Shard × ℕ :=
  let kept := shard.map fun e => (e.1, e.2.filter fun d => !dead d)
  (kept.filter fun e =>
    e.2 ≠ [], (shard.map fun e => e.2.length).sum - (kept.map fun e => e.2.length).sum)

def prefixDocs (shard : Shard) (term : String) : List ℕ :=
  (shard.filter fun e => Strings.hasPrefix e.1 term).flatMap Prod.snd

def shardOf (token : String) : String := String.ofList (token.toList.take 2)

def byShard (tokens : List String) : List (String × List String) :=
  tokens.foldl (fun out t => setEntry out (shardOf t) (((out.lookup (shardOf t)).getD []) ++ [t]))
    []

def encodeDeltas : ℕ → List ℕ → Bytes
  | _, [] => []
  | prev, d :: ds => varint (d - prev) ++ encodeDeltas d ds

def encodeEntry (e : String × List ℕ) : Bytes :=
  let t := utf8 e.1
  varint t.length ++ (t ++ (varint e.2.length ++ encodeDeltas 0 e.2))

def encodeShard (shard : Shard) : Bytes := varint shard.length ++ shard.flatMap encodeEntry

def readDeltas : ℕ → ℕ → Bytes → Option (List ℕ × Bytes)
  | 0, _, b => some ([], b)
  | n + 1, prev, b => do
    let (delta, b) ← readVarint b
    let (ds, b) ← readDeltas n (prev + delta) b
    return ((prev + delta) :: ds, b)

def readEntry (p : Platform) (b : Bytes) : Option ((String × List ℕ) × Bytes) := do
  let (len, b) ← readVarint b
  if b.length < len then none
  else
    let (n, rest) ← readVarint (b.drop len)
    let (ds, rest) ← readDeltas n 0 rest
    return ((p.textDecode (b.take len), ds), rest)

def readEntries (p : Platform) : ℕ → Shard → Bytes → Option Shard
  | 0, shard, _ => some shard
  | n + 1, shard, b => do
    let (e, b) ← readEntry p b
    readEntries p n (setEntry shard e.1 e.2) b

def decodeShard (p : Platform) (b : Bytes) : Option Shard := do
  let (count, b) ← readVarint b
  readEntries p count [] b

structure Shard.Valid (shard : Shard) : Prop where
  nodup : (shard.map Prod.fst).Nodup
  plain : ∀ e ∈ shard, Plain e.1
  ascending : ∀ e ∈ shard, e.2.Pairwise (· < ·)

def Shard.Posting (shard : Shard) (token : String) (doc : ℕ) : Prop :=
  ∃ list, (token, list) ∈ shard ∧ doc ∈ list

def Shard.Grown (shard shard' : Shard) : Prop :=
  ∃ added : List (String × ℕ), shard' = added.foldl (fun s a => addPosting s a.1 a.2) shard

section Entries

variable {κ ν : Type} [DecidableEq κ] {m : List (κ × ν)} {k : κ} {v : ν}

theorem keys_setEntry : (setEntry m k v).map Prod.fst = if k ∈ m.map Prod.fst then m.map Prod.fst
    else m.map Prod.fst ++ [k] := by
  unfold setEntry
  split
  · rw [List.map_map]
    apply List.map_congr_left
    intro e _
    by_cases he : e.1 = k
    · simp [he]
    · simp [he]
  · simp

theorem nodup_keys_setEntry (h : (m.map Prod.fst).Nodup) :
    ((setEntry m k v).map Prod.fst).Nodup := by
  rw [keys_setEntry]
  split
  · exact h
  · next hk => exact List.Nodup.append h (List.nodup_singleton k) (by simpa using hk)

theorem mem_setEntry {e : κ × ν} (h : e ∈ setEntry m k v) : e = (k, v) ∨ e ∈ m ∧ e.1 ≠ k := by
  unfold setEntry at h
  split at h
  · obtain ⟨e', he', rfl⟩ := List.mem_map.mp h
    by_cases hk : e'.1 = k
    · exact .inl (if_pos hk)
    · rw [if_neg hk]
      exact .inr ⟨he', hk⟩
  · next hk =>
    rcases List.mem_append.mp h with he | he
    · refine .inr ⟨he, ?_⟩
      rintro rfl
      exact hk (List.mem_map_of_mem he)
    · exact .inl (List.mem_singleton.mp he)

theorem mem_setEntry_self : (k, v) ∈ setEntry m k v := by
  unfold setEntry
  split
  · next hk =>
    obtain ⟨e, he, hek⟩ := List.mem_map.mp hk
    exact List.mem_map.mpr ⟨e, he, if_pos hek⟩
  · exact List.mem_append_right _ (List.mem_singleton_self _)

theorem mem_setEntry_of_ne {e : κ × ν} (he : e ∈ m) (hne : e.1 ≠ k) : e ∈ setEntry m k v := by
  unfold setEntry
  split
  · exact List.mem_map.mpr ⟨e, he, if_neg hne⟩
  · exact List.mem_append_left _ he

theorem lookup_of_mem (h : (m.map Prod.fst).Nodup) (hmem : (k, v) ∈ m) : m.lookup k = some v := by
  induction m with
  | nil => cases hmem
  | cons e m ih =>
    obtain ⟨k', v'⟩ := e
    have hnodup := List.nodup_cons.mp h
    rcases List.mem_cons.mp hmem with heq | hrest
    · cases heq
      exact List.lookup_cons_self
    · have hne : (k == k') = false := by
        rw [beq_eq_false_iff_ne]
        rintro rfl
        exact hnodup.1 (List.mem_map.mpr ⟨(k, v), hrest, rfl⟩)
      rw [List.lookup_cons, hne]
      exact ih hnodup.2 hrest

theorem mem_of_lookup (h : m.lookup k = some v) : (k, v) ∈ m := by
  obtain ⟨l₁, l₂, rfl, -⟩ := List.lookup_eq_some_iff.mp h
  exact List.mem_append_right _ List.mem_cons_self

theorem lookup_replace_of_ne {k' : κ} (hne : k' ≠ k) :
    (m.map fun e => if e.1 = k then (k, v) else e).lookup k' = m.lookup k' := by
  induction m with
  | nil => rfl
  | cons e m ih =>
    obtain ⟨k₀, v₀⟩ := e
    rw [List.map_cons]
    by_cases hk : k₀ = k
    · subst hk
      rw [if_pos rfl, List.lookup_cons, List.lookup_cons, beq_eq_false_iff_ne.mpr hne]
      exact ih
    · rw [if_neg hk, List.lookup_cons, List.lookup_cons, ih]

theorem lookup_setEntry_of_ne {k' : κ} (hne : k' ≠ k) :
    (setEntry m k v).lookup k' = m.lookup k' := by
  unfold setEntry
  split
  · exact lookup_replace_of_ne hne
  · rw [List.lookup_append, List.lookup_cons, beq_eq_false_iff_ne.mpr hne]
    simp

theorem setEntry_of_notMem (h : k ∉ m.map Prod.fst) : setEntry m k v = m ++ [(k, v)] := if_neg h

end Entries

section Postings

variable {shard shard' : Shard} {token : String} {doc : ℕ}

theorem mem_addDoc {list : List ℕ} {d : ℕ} : d ∈ addDoc list doc ↔ d ∈ list ∨ d = doc := by
  unfold addDoc
  split
  · next hlast => simp [List.getLast?_eq_none_iff.mp hlast]
  · next last hlast =>
    have hmem : last ∈ list := List.mem_of_getLast? hlast
    split
    · simp
    · split
      · next heq =>
        constructor
        · exact .inl
        · rintro (h | rfl)
          · exact h
          · rw [heq]
            exact hmem
      · have hparts : d ∈ list ↔ d ∈ list.takeWhile (· < doc) ∨ d ∈ list.dropWhile (· < doc) := by
          rw [← List.mem_append, List.takeWhile_append_dropWhile]
        dsimp only
        rw [List.mem_append, hparts]
        split
        · next hhead =>
          have hdoc : doc ∈ list.dropWhile (· < doc) := List.mem_of_head? hhead
          constructor
          · exact .inl
          · rintro (h | rfl)
            · exact h
            · exact .inr hdoc
        · rw [List.mem_cons]
          tauto

theorem le_of_mem_dropWhile {list : List ℕ} {d : ℕ} (h : list.Pairwise (· < ·))
    (hd : d ∈ list.dropWhile (· < doc)) :
    doc ≤ d := by
  cases hdrop : list.dropWhile (· < doc) with
  | nil =>
    rw [hdrop] at hd
    cases hd
  | cons first rest =>
    have hfirst : doc ≤ first := by
      have hnot :=
        List.head_dropWhile_not (· < doc) (l := list) (by rw [hdrop]; exact List.cons_ne_nil _ _)
      simp only [hdrop, List.head_cons, decide_eq_false_iff_not, not_lt] at hnot
      exact hnot
    have hsorted := h.sublist (List.dropWhile_sublist (· < doc))
    rw [hdrop] at hsorted hd
    rcases List.mem_cons.mp hd with rfl | hd
    · exact hfirst
    · exact hfirst.trans (List.rel_of_pairwise_cons hsorted hd).le

theorem ascending_addDoc {list : List ℕ} (h : list.Pairwise (· < ·)) : (addDoc list doc).Pairwise
    (· < ·) := by
  unfold addDoc
  split
  · exact List.pairwise_singleton _ _
  · next last hlast =>
    split
    · next hlt =>
      refine List.pairwise_append.mpr ⟨h, List.pairwise_singleton _ _, ?_⟩
      intro a ha b hb
      rw [List.mem_singleton.mp hb]
      obtain ⟨init, rfl⟩ := List.getLast?_eq_some_iff.mp hlast
      rcases List.mem_append.mp ha with ha | ha
      · exact ((List.pairwise_append.mp h).2.2 a ha last (List.mem_singleton_self _)).trans hlt
      · rw [List.mem_singleton.mp ha]
        exact hlt
    · split
      · exact h
      · have hbefore : ∀ a ∈ list.takeWhile (· < doc), a < doc := by
          intro a ha
          simpa using List.mem_takeWhile_imp ha
        have hbehind : ∀ b ∈ list.dropWhile (· < doc), doc ≤ b := fun b => le_of_mem_dropWhile h
        have hfirst := h.sublist (List.takeWhile_sublist (· < doc))
        have hrest := h.sublist (List.dropWhile_sublist (· < doc))
        dsimp only
        split
        · refine List.pairwise_append.mpr ⟨hfirst, hrest, ?_⟩
          exact fun a ha b hb => (hbefore a ha).trans_le (hbehind b hb)
        · next hhead =>
          refine List.pairwise_append.mpr ⟨hfirst, List.pairwise_cons.mpr ⟨?_, hrest⟩, ?_⟩
          · intro b hb
            -- the first of them is not the document itself, and the others are above it
            refine lt_of_le_of_ne (hbehind b hb) ?_
            rintro rfl
            cases hdrop : list.dropWhile (· < doc) with
            | nil =>
              rw [hdrop] at hb
              cases hb
            | cons first rest =>
              rw [hdrop] at hb hhead hrest hbehind
              rcases List.mem_cons.mp hb with rfl | hb
              · exact hhead rfl
              · have hlow := hbehind first List.mem_cons_self
                have hhigh := List.rel_of_pairwise_cons hrest hb
                omega
          · intro a ha b hb
            rcases List.mem_cons.mp hb with rfl | hb
            · exact hbefore a ha
            · exact (hbefore a ha).trans_le (hbehind b hb)

theorem posting_addPosting_iff (h : shard.Valid) {t : String} {d : ℕ} :
    (addPosting shard token doc).Posting t d ↔ shard.Posting t d ∨ t = token ∧ d = doc := by
  unfold addPosting
  cases hlookup : shard.lookup token with
  | none =>
    have hnew : ∀ {list : List ℕ}, (token, list) ∉ shard := fun hmem => by
      rw [lookup_of_mem h.nodup hmem] at hlookup
      cases hlookup
    constructor
    · rintro ⟨list, hlist, hd⟩
      rcases List.mem_append.mp hlist with hlist | hlist
      · exact .inl ⟨list, hlist, hd⟩
      · cases List.mem_singleton.mp hlist
        exact .inr ⟨rfl, List.mem_singleton.mp hd⟩
    · rintro (⟨list, hlist, hd⟩ | ⟨rfl, rfl⟩)
      · exact ⟨list, List.mem_append_left _ hlist, hd⟩
      · exact ⟨[d], List.mem_append_right _ (List.mem_singleton_self _), List.mem_singleton_self d⟩
  | some old =>
    have hold : (token, old) ∈ shard := mem_of_lookup hlookup
    dsimp only
    constructor
    · rintro ⟨list, hlist, hd⟩
      rcases mem_setEntry hlist with heq | ⟨hlist, -⟩
      · cases heq
        rcases mem_addDoc.mp hd with hd | rfl
        · exact .inl ⟨old, hold, hd⟩
        · exact .inr ⟨rfl, rfl⟩
      · exact .inl ⟨list, hlist, hd⟩
    · rintro (⟨list, hlist, hd⟩ | ⟨rfl, rfl⟩)
      · by_cases ht : t = token
        · subst ht
          have hsame := lookup_of_mem h.nodup hlist
          rw [hlookup] at hsame
          cases hsame
          exact ⟨_, mem_setEntry_self, mem_addDoc.mpr (.inl hd)⟩
        · exact ⟨list, mem_setEntry_of_ne hlist ht, hd⟩
      · exact ⟨_, mem_setEntry_self, mem_addDoc.mpr (.inr rfl)⟩

theorem valid_addPosting (h : shard.Valid) (htoken : Plain token) :
    (addPosting shard token doc).Valid := by
  unfold addPosting
  cases hlookup : shard.lookup token with
  | none =>
    have hnew : token ∉ shard.map Prod.fst := by
      intro hmem
      obtain ⟨⟨t, list⟩, hlist, rfl⟩ := List.mem_map.mp hmem
      rw [lookup_of_mem h.nodup hlist] at hlookup
      cases hlookup
    refine ⟨?_, ?_, ?_⟩
    · rw [List.map_append]
      exact List.Nodup.append h.nodup (List.nodup_singleton token) (by simpa using hnew)
    · intro e he
      rcases List.mem_append.mp he with he | he
      · exact h.plain e he
      · rw [List.mem_singleton.mp he]
        exact htoken
    · intro e he
      rcases List.mem_append.mp he with he | he
      · exact h.ascending e he
      · rw [List.mem_singleton.mp he]
        exact List.pairwise_singleton _ _
  | some old =>
    refine ⟨nodup_keys_setEntry h.nodup, ?_, ?_⟩
    · intro e he
      rcases mem_setEntry he with rfl | ⟨he, -⟩
      · exact htoken
      · exact h.plain e he
    · intro e he
      rcases mem_setEntry he with rfl | ⟨he, -⟩
      · exact ascending_addDoc (h.ascending _ (mem_of_lookup hlookup))
      · exact h.ascending e he

theorem Shard.Grown.refl (shard : Shard) : shard.Grown shard := ⟨[], rfl⟩

theorem Shard.Grown.addPosting (h : shard.Grown shard') : shard.Grown
    (addPosting shard' token doc) := by
  obtain ⟨added, rfl⟩ := h
  exact ⟨added ++ [(token, doc)], by rw [List.foldl_append]; rfl⟩

end Postings

section RoundTrip

variable {p : Platform}

theorem readDeltas_encodeDeltas {prev : ℕ} {list : List ℕ} (h : list.Pairwise (· < ·))
    (hprev : ∀ d ∈ list, prev ≤ d) (rest : Bytes) :
    readDeltas list.length prev (encodeDeltas prev list ++ rest) = some (list, rest) := by
  induction list generalizing prev with
  | nil => rfl
  | cons d ds ih =>
    have hd := hprev d List.mem_cons_self
    have hrest := ih (List.pairwise_cons.mp h).2 (fun e he => (List.rel_of_pairwise_cons h he).le)
    rw [encodeDeltas, List.append_assoc, List.length_cons, readDeltas, readVarint_varint]
    simp only [Option.bind_eq_bind, Option.bind_some, Nat.add_sub_cancel' hd, hrest]
    rfl

theorem readEntry_encodeEntry (hp : p.Lawful) {e : String × List ℕ} (hplain : Plain e.1)
    (hsorted : e.2.Pairwise (· < ·)) (rest : Bytes) : readEntry p (encodeEntry e ++ rest) =
    some (e, rest) := by
  unfold readEntry encodeEntry
  dsimp only
  rw [List.append_assoc, readVarint_varint]
  simp only [Option.bind_eq_bind, Option.bind_some]
  rw [if_neg (by simp), List.append_assoc, List.drop_left, List.take_left, List.append_assoc,
    readVarint_varint]
  simp only [Option.bind_some]
  rw [readDeltas_encodeDeltas hsorted (fun d _ => Nat.zero_le d), hp.decode e.1 hplain]
  rfl

theorem readEntries_encode (hp : p.Lawful) (done : Shard) {shard : Shard}
    (h : (done ++ shard).Valid) (rest : Bytes) :
    readEntries p shard.length done (shard.flatMap encodeEntry ++ rest) = some (done ++ shard) := by
  induction shard generalizing done with
  | nil => simp [readEntries]
  | cons e shard ih =>
    have hmem : e ∈ done ++ e :: shard := List.mem_append_right _ List.mem_cons_self
    have hnew : e.1 ∉ done.map Prod.fst := by
      have hnodup := h.nodup
      rw [List.map_append, List.map_cons] at hnodup
      exact fun hold => (List.nodup_append.mp hnodup).2.2 _ hold _ List.mem_cons_self rfl
    have hvalid : (done ++ [e] ++ shard).Valid := by
      rw [List.append_assoc]
      exact h
    rw [List.length_cons, readEntries, List.flatMap_cons, List.append_assoc,
      readEntry_encodeEntry hp (h.plain e hmem)
      (h.ascending e hmem)]
    simp only [Option.bind_eq_bind, Option.bind_some]
    rw [setEntry_of_notMem hnew, ih _ hvalid, List.append_assoc]
    rfl

theorem decodeShard_encodeShard (hp : p.Lawful) {shard : Shard} (h : shard.Valid) :
    decodeShard p (encodeShard shard) = some shard := by
  unfold decodeShard encodeShard
  rw [readVarint_varint]
  simp only [Option.bind_eq_bind, Option.bind_some]
  have hread := readEntries_encode hp [] h []
  rw [List.append_nil] at hread
  exact hread

end RoundTrip

end Dmcn.Web.Search
