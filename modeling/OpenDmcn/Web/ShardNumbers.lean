import OpenDmcn.Lib.Number
import OpenDmcn.Lib.Utf16
import OpenDmcn.Web.ShardIndex
import Mathlib.Tactic.Ring

/-! A shard of the search index in the numbers of JavaScript: the words a text is cut into
(`search/tokenize.ts`), and the bytes a shard is stored in, which are written and read by sums and
products of doubles (`search/shardIndex.ts`). -/

namespace Dmcn.Web.Search

open Go

section Words

inductive NormalForm where
  | nfkd | nfc

structure Segment where
  segment : Js.Text
  isWordLike : Bool

structure Intl where
  normalize : NormalForm → Js.Text → Js.Text
  toLowerCase : Js.Text → Js.Text
  mark : Char → Bool
  letter : Char → Bool
  number : Char → Bool
  /-- The scripts Han, Hiragana, Katakana and Hangul. -/
  ideographic : Char → Bool
  segmenter : Option (Js.Text → List Segment)

def maxIndexChars : ℕ := 256 * 1024

def maxToken : ℕ := 40

variable (intl : Intl)

def Intl.isMark : Js.CodePoint → Bool
  | .char c => intl.mark c
  | .lone _ => false

def Intl.fold (s : Js.Text) : Js.Text :=
  let bare := (Js.codePoints (intl.normalize .nfkd s)).filter fun p => !intl.isMark p
  intl.toLowerCase (intl.normalize .nfc (bare.flatMap Js.CodePoint.units))

def Intl.matchAll : List Char → List Js.CodePoint → List (List Char)
  | run, [] => if run = [] then [] else [run]
  | run, .char c :: rest =>
    if intl.letter c || intl.number c then Intl.matchAll (run ++ [c]) rest
    else if run = [] then Intl.matchAll [] rest
    else run :: Intl.matchAll [] rest
  | run, .lone _ :: rest => if run = [] then Intl.matchAll [] rest else run :: Intl.matchAll [] rest

def Intl.keep (token : List Char) : Bool :=
  if maxToken < token.length then false else decide (2 ≤ token.length) || token.any intl.ideographic

def addToken (out : List String) (token : String) : List String :=
  if token ∈ out then out else out ++ [token]

def Intl.take (out : List String) (chunk : Js.Text) : List String :=
  ((intl.matchAll [] (Js.codePoints chunk)).filter intl.keep).foldl (fun out token =>
    addToken out (String.ofList token)) out

def Intl.tokenize (text : Js.Text) : List String :=
  let folded := intl.fold (if maxIndexChars < text.length then text.take maxIndexChars else text)
  match intl.segmenter with
  | some segment => ((segment folded).filter Segment.isWordLike).foldl
    (fun out seg => intl.take out seg.segment) []
  | none => intl.take [] folded

structure Intl.Token (t : String) : Prop where
  short : t.toList.length ≤ maxToken
  word : ∀ c ∈ t.toList, intl.letter c = true ∨ intl.number c = true

variable {intl}

theorem word_of_mem_matchAll {run : List Char} {points : List Js.CodePoint} {w : List Char}
    (hrun : ∀ c ∈ run, intl.letter c = true ∨ intl.number c = true)
    (h : w ∈ intl.matchAll run points) :
    ∀ c ∈ w, intl.letter c = true ∨ intl.number c = true := by
  have hnone : ∀ c ∈ ([] : List Char), intl.letter c = true ∨ intl.number c = true :=
    fun c hc => by cases hc
  induction points generalizing run with
  | nil =>
    unfold Intl.matchAll at h
    split at h
    · cases h
    · rw [List.mem_singleton.mp h]
      exact hrun
  | cons p points ih =>
    cases p with
    | char c =>
      unfold Intl.matchAll at h
      split at h
      · next hc =>
        refine ih (fun d hd => ?_) h
        rcases List.mem_append.mp hd with hd | hd
        · exact hrun d hd
        · rw [List.mem_singleton.mp hd]
          exact Bool.or_eq_true_iff.mp hc
      · split at h
        · exact ih hnone h
        · rcases List.mem_cons.mp h with rfl | h
          · exact hrun
          · exact ih hnone h
    | lone u =>
      unfold Intl.matchAll at h
      split at h
      · exact ih hnone h
      · rcases List.mem_cons.mp h with rfl | h
        · exact hrun
        · exact ih hnone h

theorem length_le_of_keep {w : List Char} (h : intl.keep w = true) : w.length ≤ maxToken := by
  unfold Intl.keep at h
  split at h
  · cases h
  · next hlong => exact Nat.le_of_not_lt hlong

theorem mem_addToken {out : List String} {t u : String} : t ∈ addToken out u ↔ t ∈ out ∨ t = u := by
  unfold addToken
  split
  · next hu =>
    refine ⟨.inl, ?_⟩
    rintro (h | rfl)
    · exact h
    · exact hu
  · simp

theorem token_of_mem_take {out : List String} {chunk : Js.Text} (hout : ∀ t ∈ out, intl.Token t) :
    ∀ t ∈ intl.take out chunk, intl.Token t := by
  have hwords : ∀ w ∈ (intl.matchAll [] (Js.codePoints chunk)).filter intl.keep,
      intl.Token (String.ofList w) := by
    intro w hw
    obtain ⟨hmem, hkeep⟩ := List.mem_filter.mp hw
    refine ⟨?_, ?_⟩
    · rw [String.toList_ofList]
      exact length_le_of_keep hkeep
    · rw [String.toList_ofList]
      exact word_of_mem_matchAll (fun c hc => by cases hc) hmem
  unfold Intl.take
  generalize (intl.matchAll [] (Js.codePoints chunk)).filter intl.keep = ws at hwords ⊢
  induction ws generalizing out with
  | nil => exact hout
  | cons w ws ih =>
    refine ih (fun t ht => ?_) fun v hv => hwords v (List.mem_cons_of_mem _ hv)
    rcases mem_addToken.mp ht with ht | rfl
    · exact hout t ht
    · exact hwords w List.mem_cons_self

theorem token_of_mem_tokenize {text : Js.Text} : ∀ t ∈ intl.tokenize text, intl.Token t := by
  have hnone : ∀ t ∈ ([] : List String), intl.Token t := fun t ht => by cases ht
  unfold Intl.tokenize
  dsimp only
  split
  · next segment _ =>
    generalize (segment _).filter Segment.isWordLike = segs
    have hall : ∀ out : List String, (∀ t ∈ out, intl.Token t) →
        ∀ t ∈ segs.foldl (fun out seg => intl.take out seg.segment) out, intl.Token t := by
      induction segs with
      | nil => exact fun out hout => hout
      | cons seg segs ih => exact fun out hout => ih _ (token_of_mem_take hout)
    exact hall [] hnone
  · exact token_of_mem_take hnone

structure Intl.Lawful (intl : Intl) : Prop where
  letter_mark : intl.letter byteOrderMark = false
  number_mark : intl.number byteOrderMark = false

theorem Intl.Token.plain (h : intl.Lawful) {t : String} (ht : intl.Token t) : Plain t := by
  intro hmark
  rcases ht.word byteOrderMark (List.mem_of_head? hmark) with hword | hword
  · rw [h.letter_mark] at hword
    cases hword
  · rw [h.number_mark] at hword
    cases hword

theorem Intl.Token.length_utf8 {t : String} (ht : intl.Token t) : (utf8 t).length ≤ 160 := by
  have hbytes := length_utf8_le t
  have hshort := ht.short
  unfold maxToken at hshort
  omega

end Words

namespace Doubles

open Js (number)

def writeVarint (v : ℤ) : Bytes :=
  if 128 ≤ v then UInt8.ofNat ((v % 128).toNat ||| 128) :: writeVarint (v / 128)
    else [UInt8.ofNat (v % 256).toNat]
termination_by v.toNat
decreasing_by omega

def readVarint : ℤ → ℤ → Bytes → Option (ℤ × Bytes)
  | _, _, [] => none
  | v, mul, byte :: rest =>
    let v := number (v + number (((byte &&& 0x7F).toNat : ℤ) * mul))
    if byte < 0x80 then some (v, rest) else readVarint v (number (mul * 128)) rest

def encodeDeltas : ℤ → List ℕ → Bytes
  | _, [] => []
  | prev, d :: ds => writeVarint (number (d - prev)) ++ encodeDeltas d ds

def encodeEntry (e : String × List ℕ) : Bytes :=
  let t := utf8 e.1
  writeVarint t.length ++ (t ++ (writeVarint e.2.length ++ encodeDeltas 0 e.2))

def encodeShard (shard : Shard) : Bytes := writeVarint shard.length ++ shard.flatMap encodeEntry

def readDeltas : ℕ → ℤ → Bytes → Option (List ℕ × Bytes)
  | 0, _, b => some ([], b)
  | n + 1, prev, b => do
    let (delta, b) ← readVarint 0 1 b
    let prev := number (prev + delta)
    let (ds, b) ← readDeltas n prev b
    return (prev.toNat :: ds, b)

def readEntry (textDecode : Bytes → String) (b : Bytes) : Option ((String × List ℕ) × Bytes) := do
  let (len, b) ← readVarint 0 1 b
  if (b.length : ℤ) < len then none
  else
    let (n, rest) ← readVarint 0 1 (b.drop len.toNat)
    let (ds, rest) ← readDeltas n.toNat 0 rest
    return ((textDecode (b.take len.toNat), ds), rest)

def readEntries (textDecode : Bytes → String) : ℕ → Shard → Bytes → Option Shard
  | 0, shard, _ => some shard
  | n + 1, shard, b => do
    let (e, b) ← readEntry textDecode b
    readEntries textDecode n (Drafts.setEntry shard e.1 e.2) b

def decodeShard (textDecode : Bytes → String) (b : Bytes) : Option Shard := do
  let (count, b) ← readVarint 0 1 b
  readEntries textDecode count.toNat [] b

section RoundTrip

theorem number_natCast {n : ℕ} (h : n ≤ 2 ^ 53) : number (n : ℤ) = n :=
  Js.number_of_le (by rwa [Int.natAbs_natCast])

theorem low_bits (b : UInt8) : (b &&& 0x7F).toNat = b.toNat % 128 := by
  have hmask : (0x7F : UInt8).toNat = 2 ^ 7 - 1 := rfl
  rw [UInt8.toNat_and, hmask, Nat.and_two_pow_sub_one_eq_mod]

theorem more_bits {n : ℕ} (h : n < 128) : n ||| 128 = n + 128 := by
  have hsum : 2 ^ 7 * 1 + n = 2 ^ 7 * 1 ||| n := Nat.two_pow_add_eq_or_of_lt h 1
  rw [Nat.or_comm, Nat.add_comm]
  exact hsum.symm

theorem readVarint_at {n a k : ℕ} (h : a + n * 128 ^ k ≤ 2 ^ 53) (rest : Bytes) :
    readVarint a ((128 ^ k : ℕ) : ℤ) (writeVarint n ++ rest) =
      some (((a + n * 128 ^ k : ℕ) : ℤ), rest) := by
  induction n using Nat.strongRecOn generalizing a k with
  | ind n ih =>
    rw [writeVarint]
    by_cases hn : n < 128
    · rw [if_neg (by omega), List.singleton_append, readVarint]
      have hbyte : (UInt8.ofNat ((n : ℤ) % 256).toNat).toNat = n := by
        rw [Protobuf.toNat_ofNat (by omega)]
        omega
      have hdigit : (UInt8.ofNat ((n : ℤ) % 256).toNat &&& 0x7F).toNat = n := by
        rw [low_bits, hbyte, Nat.mod_eq_of_lt hn]
      have hproduct : number (((n : ℕ) : ℤ) * ((128 ^ k : ℕ) : ℤ)) = ((n * 128 ^ k : ℕ) : ℤ) := by
        rw [← Nat.cast_mul]
        exact number_natCast ((Nat.le_add_left ..).trans h)
      have hsum : number ((a : ℤ) + ((n * 128 ^ k : ℕ) : ℤ)) = ((a + n * 128 ^ k : ℕ) : ℤ) := by
        rw [← Nat.cast_add]
        exact number_natCast h
      have hlast : UInt8.ofNat ((n : ℤ) % 256).toNat < 0x80 := by
        rw [UInt8.lt_iff_toNat_lt, hbyte]
        exact hn
      rw [if_pos hlast, hdigit, hproduct, hsum]
    · have hsmall : n % 128 < 128 := Nat.mod_lt _ (by decide)
      have hsplit : n = n % 128 + 128 * (n / 128) := (Nat.mod_add_div n 128).symm
      have hbyte : (UInt8.ofNat (((n : ℤ) % 128).toNat ||| 128)).toNat = n % 128 + 128 := by
        have hcast : ((n : ℤ) % 128).toNat = n % 128 := by omega
        rw [hcast, more_bits hsmall, Protobuf.toNat_ofNat (by omega)]
      have hdigit : (UInt8.ofNat (((n : ℤ) % 128).toNat ||| 128) &&& 0x7F).toNat = n % 128 := by
        rw [low_bits, hbyte, Nat.add_mod_right, Nat.mod_mod]
      have hmore : ¬ UInt8.ofNat (((n : ℤ) % 128).toNat ||| 128) < 0x80 := by
        rw [UInt8.lt_iff_toNat_lt, hbyte]
        exact Nat.not_lt_of_le (Nat.le_add_left ..)
      have htotal : a + n % 128 * 128 ^ k + n / 128 * 128 ^ (k + 1) = a + n * 128 ^ k := by
        conv_rhs => rw [hsplit]
        ring
      have hproduct : number (((n % 128 : ℕ) : ℤ) * ((128 ^ k : ℕ) : ℤ)) =
          ((n % 128 * 128 ^ k : ℕ) : ℤ) := by
        rw [← Nat.cast_mul]
        refine number_natCast ?_
        omega
      have hsum : number ((a : ℤ) + ((n % 128 * 128 ^ k : ℕ) : ℤ)) =
          ((a + n % 128 * 128 ^ k : ℕ) : ℤ) := by
        rw [← Nat.cast_add]
        refine number_natCast ?_
        omega
      have hmul : number (((128 ^ k : ℕ) : ℤ) * 128) = ((128 ^ (k + 1) : ℕ) : ℤ) := by
        have hpow : ((128 ^ k : ℕ) : ℤ) * 128 = ((128 ^ (k + 1) : ℕ) : ℤ) := by
          rw [pow_succ, Nat.cast_mul]
          rfl
        rw [hpow]
        refine number_natCast ?_
        -- there is a digit at the next place
        have hnext : 128 ^ (k + 1) ≤ n / 128 * 128 ^ (k + 1) := Nat.le_mul_of_pos_left _ (by omega)
        omega
      have hquotient : (n : ℤ) / 128 = ((n / 128 : ℕ) : ℤ) := by omega
      rw [if_pos (by omega), List.cons_append, readVarint]
      rw [if_neg hmore, hdigit, hproduct, hsum, hmul, hquotient,
        ih (n / 128) (by omega) (by rw [htotal]; exact h), htotal]

theorem readVarint_writeVarint {n : ℕ} (h : n ≤ 2 ^ 53) (rest : Bytes) :
    readVarint 0 1 (writeVarint n ++ rest) = some ((n : ℤ), rest) := by
  have hread := readVarint_at (n := n) (a := 0) (k := 0) (by simpa using h) rest
  simpa using hread

theorem readDeltas_encodeDeltas {prev : ℕ} {list : List ℕ} (h : list.Pairwise (· < ·))
    (hprev : ∀ d ∈ list, prev ≤ d) (hsmall : ∀ d ∈ list, d < 2 ^ 53) (rest : Bytes) :
    readDeltas list.length prev (encodeDeltas prev list ++ rest) = some (list, rest) := by
  induction list generalizing prev with
  | nil => rfl
  | cons d ds ih =>
    have hd := hprev d List.mem_cons_self
    have hbound := hsmall d List.mem_cons_self
    have hrest := ih (List.pairwise_cons.mp h).2 (fun e he => (List.rel_of_pairwise_cons h he).le)
      fun e he => hsmall e (List.mem_cons_of_mem _ he)
    have hdelta : number ((d : ℤ) - prev) = ((d - prev : ℕ) : ℤ) := by
      rw [← Nat.cast_sub hd]
      exact number_natCast (by omega)
    have hsum : number ((prev : ℤ) + ((d - prev : ℕ) : ℤ)) = d := by
      rw [← Nat.cast_add, Nat.add_sub_cancel' hd]
      exact number_natCast (by omega)
    rw [encodeDeltas, List.append_assoc, List.length_cons, readDeltas, hdelta,
      readVarint_writeVarint (by omega)]
    simp only [Option.bind_eq_bind, Option.bind_some, hsum, hrest, Int.toNat_natCast]
    rfl

theorem length_le_of_ascending {list : List ℕ} {bound : ℕ} (h : list.Pairwise (· < ·))
    (hsmall : ∀ d ∈ list, d < bound) : list.length ≤ bound := by
  have hsub : list ⊆ List.range bound := fun d hd => List.mem_range.mpr (hsmall d hd)
  have hnodup : list.Nodup := h.imp Nat.ne_of_lt
  simpa using (hnodup.subperm hsub).length_le

structure Countable (shard : Shard) : Prop where
  size : shard.length ≤ 2 ^ 53
  tokens : ∀ e ∈ shard, (utf8 e.1).length ≤ 2 ^ 53
  docs : ∀ e ∈ shard, ∀ d ∈ e.2, d < 2 ^ 53

variable {textDecode : Bytes → String}

theorem readEntry_encodeEntry (hdecode : ∀ t, Plain t → textDecode (utf8 t) = t)
    {e : String × List ℕ} (hplain : Plain e.1) (hsorted : e.2.Pairwise (· < ·))
    (htoken : (utf8 e.1).length ≤ 2 ^ 53) (hdocs : ∀ d ∈ e.2, d < 2 ^ 53) (rest : Bytes) :
    readEntry textDecode (encodeEntry e ++ rest) = some (e, rest) := by
  have hcount := length_le_of_ascending hsorted hdocs
  unfold readEntry encodeEntry
  dsimp only
  rw [List.append_assoc, readVarint_writeVarint htoken]
  simp only [Option.bind_eq_bind, Option.bind_some, Int.toNat_natCast]
  rw [if_neg (by rw [List.append_assoc, List.length_append]; omega), List.append_assoc,
    List.drop_left, List.take_left, List.append_assoc, readVarint_writeVarint hcount]
  simp only [Option.bind_some, Int.toNat_natCast]
  have hread := readDeltas_encodeDeltas hsorted (fun d _ => Nat.zero_le d) hdocs rest
  rw [Nat.cast_zero] at hread
  rw [hread, hdecode e.1 hplain]
  rfl

theorem readEntries_encode (hdecode : ∀ t, Plain t → textDecode (utf8 t) = t) (done : Shard)
    {shard : Shard} (h : (done ++ shard).Valid) (hcount : Countable (done ++ shard))
    (rest : Bytes) :
    readEntries textDecode shard.length done (shard.flatMap encodeEntry ++ rest) =
      some (done ++ shard) := by
  induction shard generalizing done with
  | nil => simp [readEntries]
  | cons e shard ih =>
    have hmem : e ∈ done ++ e :: shard := List.mem_append_right _ List.mem_cons_self
    have hnew : e.1 ∉ done.map Prod.fst := by
      have hnodup := h.nodup
      rw [List.map_append, List.map_cons] at hnodup
      exact fun hold => (List.nodup_append.mp hnodup).2.2 _ hold _ List.mem_cons_self rfl
    have hshift : done ++ [e] ++ shard = done ++ e :: shard := by
      rw [List.append_assoc, List.singleton_append]
    have hread :=
      readEntry_encodeEntry hdecode (h.plain e hmem) (h.ascending e hmem) (hcount.tokens e hmem)
      (hcount.docs e hmem) (shard.flatMap encodeEntry ++ rest)
    rw [List.length_cons, readEntries, List.flatMap_cons, List.append_assoc, hread]
    simp only [Option.bind_eq_bind, Option.bind_some]
    rw [setEntry_of_notMem hnew, ih (done ++ [e]) (by rwa [hshift]) (by rwa [hshift]), hshift]

theorem decodeShard_encodeShard (hdecode : ∀ t, Plain t → textDecode (utf8 t) = t) {shard : Shard}
    (h : shard.Valid) (hcount : Countable shard) : decodeShard textDecode (encodeShard shard) =
    some shard := by
  have hread := readEntries_encode hdecode [] h hcount []
  rw [List.append_nil, List.nil_append] at hread
  unfold decodeShard encodeShard
  rw [readVarint_writeVarint hcount.size]
  simp only [Option.bind_eq_bind, Option.bind_some, Int.toNat_natCast]
  exact hread

end RoundTrip

end Doubles

section Runs

variable {intl : Intl} {shard : Shard}

theorem mem_dropDocs {dead : ℕ → Bool} {e : String × List ℕ} :
    e ∈ (dropDocs shard dead).1 ↔ e.2 ≠ [] ∧ ∃ list, (e.1, list) ∈ shard ∧
      e.2 = list.filter fun d => !dead d := by
  unfold dropDocs
  simp only [List.mem_filter, List.mem_map, decide_eq_true_iff]
  constructor
  · rintro ⟨⟨old, hold, rfl⟩, hne⟩
    exact ⟨hne, old.2, hold, rfl⟩
  · rintro ⟨hne, list, hlist, heq⟩
    exact ⟨⟨(e.1, list), hlist, Prod.ext rfl heq.symm⟩, hne⟩

theorem valid_dropDocs (h : shard.Valid) (dead : ℕ → Bool) : ((dropDocs shard dead).1).Valid := by
  refine ⟨?_, ?_, ?_⟩
  · have hkeys : ((shard.map fun e => (e.1, e.2.filter fun d => !dead d)).map Prod.fst) =
        shard.map Prod.fst := by
      rw [List.map_map]
      rfl
    have hsub : (((dropDocs shard dead).1).map Prod.fst).Sublist (shard.map Prod.fst) := by
      rw [← hkeys]
      exact List.Sublist.map _ List.filter_sublist
    exact h.nodup.sublist hsub
  · intro e he
    obtain ⟨-, list, hlist, -⟩ := mem_dropDocs.mp he
    exact h.plain (e.1, list) hlist
  · intro e he
    obtain ⟨-, list, hlist, heq⟩ := mem_dropDocs.mp he
    rw [heq]
    exact (h.ascending _ hlist).sublist List.filter_sublist

theorem posting_dropDocs_iff {dead : ℕ → Bool} {t : String} {d : ℕ} :
    (dropDocs shard dead).1.Posting t d ↔ shard.Posting t d ∧ dead d = false := by
  constructor
  · rintro ⟨list, hlist, hd⟩
    obtain ⟨-, old, hold, heq⟩ := mem_dropDocs.mp hlist
    dsimp only at heq
    rw [heq] at hd
    obtain ⟨hmem, hlive⟩ := List.mem_filter.mp hd
    exact ⟨⟨old, hold, hmem⟩, by simpa using hlive⟩
  · rintro ⟨⟨list, hlist, hd⟩, hlive⟩
    have hkept : d ∈ list.filter fun d => !dead d := List.mem_filter.mpr ⟨hd, by simp [hlive]⟩
    exact ⟨_, mem_dropDocs.mpr ⟨List.ne_nil_of_mem hkept, list, hlist, rfl⟩, hkept⟩

theorem addDoc_ne_nil (list : List ℕ) (doc : ℕ) : addDoc list doc ≠ [] :=
  List.ne_nil_of_mem (mem_addDoc.mpr (.inr rfl))

inductive Call where
  | addPosting (token : String) (doc : ℕ)
  | dropDocs (dead : ℕ → Bool)

def Call.run (shard : Shard) : Call → Shard
  | .addPosting token doc => Search.addPosting shard token doc
  | .dropDocs dead => (Search.dropDocs shard dead).1

def built (calls : List Call) : Shard := calls.foldl Call.run []

def Live (calls : List Call) (t : String) (d : ℕ) : Prop :=
  ∃ before after, calls = before ++ .addPosting t d :: after ∧ ∀ dead, .dropDocs dead ∈ after →
    dead d = false

def Fed (intl : Intl) : Call → Prop
  | .addPosting token doc => (∃ text, token ∈ intl.tokenize text) ∧ doc < 2 ^ 53
  | .dropDocs _ => True

theorem built_concat (calls : List Call) (c : Call) : built (calls ++ [c]) = c.run
    (built calls) := by
  unfold built
  rw [List.foldl_append]
  rfl

theorem live_concat {calls : List Call} {c : Call} {t : String} {d : ℕ} :
    Live (calls ++ [c]) t d ↔
      c = .addPosting t d ∨ Live calls t d ∧ ∀ dead, c = .dropDocs dead → dead d = false := by
  constructor
  · rintro ⟨before, after, heq, hkept⟩
    rcases List.eq_nil_or_concat after with rfl | ⟨after, last, rfl⟩
    · have hsplit := List.append_inj' heq rfl
      exact .inl (List.singleton_inj.mp hsplit.2)
    · rw [List.concat_eq_append] at heq hkept
      rw [← List.cons_append, ← List.append_assoc] at heq
      obtain ⟨hcalls, hlast⟩ := List.append_inj' heq rfl
      refine .inr ⟨⟨before, after, hcalls, fun dead hdead =>
        hkept dead (List.mem_append_left _ hdead)⟩, ?_⟩
      intro dead hdead
      refine hkept dead (List.mem_append_right _ ?_)
      rw [← hdead, List.singleton_inj.mp hlast]
      exact List.mem_singleton_self _
  · rintro (rfl | ⟨⟨before, after, rfl, hkept⟩, hlast⟩)
    · exact ⟨calls, [], rfl, fun dead hdead => by cases hdead⟩
    · refine ⟨before, after ++ [c], by simp, ?_⟩
      intro dead hdead
      rcases List.mem_append.mp hdead with hdead | hdead
      · exact hkept dead hdead
      · exact hlast dead (List.mem_singleton.mp hdead).symm

structure Kept (intl : Intl) (calls : List Call) (shard : Shard) : Prop where
  valid : shard.Valid
  nonempty : ∀ e ∈ shard, e.2 ≠ []
  tokens : ∀ e ∈ shard, intl.Token e.1
  docs : ∀ e ∈ shard, ∀ d ∈ e.2, d < 2 ^ 53
  posting : ∀ t d, shard.Posting t d ↔ Live calls t d

theorem mem_addPosting {token : String} {doc : ℕ} {e : String × List ℕ}
    (h : e ∈ addPosting shard token doc) :
    e ∈ shard ∨ e.1 = token ∧ e.2 ≠ [] ∧ ∀ d ∈ e.2, d = doc ∨ ∃ list, (token, list) ∈ shard ∧
      d ∈ list := by
  unfold addPosting at h
  split at h
  · rcases List.mem_append.mp h with h | h
    · exact .inl h
    · rw [List.mem_singleton.mp h]
      exact .inr ⟨rfl, List.cons_ne_nil _ _, fun d hd => .inl (List.mem_singleton.mp hd)⟩
  · next list hlookup =>
    rcases mem_setEntry h with rfl | ⟨h, -⟩
    · refine .inr ⟨rfl, addDoc_ne_nil _ _, fun d hd => ?_⟩
      rcases mem_addDoc.mp hd with hd | rfl
      · exact .inr ⟨list, mem_of_lookup hlookup, hd⟩
      · exact .inl rfl
    · exact .inl h

theorem Kept.addPosting {calls : List Call} (h : Kept intl calls shard) (hintl : intl.Lawful)
    {token : String} {doc : ℕ} (htoken : intl.Token token) (hdoc : doc < 2 ^ 53) :
    Kept intl (calls ++ [.addPosting token doc]) (Search.addPosting shard token doc) where
  valid := valid_addPosting h.valid (htoken.plain hintl)
  nonempty e he := by
    rcases mem_addPosting he with he | ⟨-, hne, -⟩
    · exact h.nonempty e he
    · exact hne
  tokens e he := by
    rcases mem_addPosting he with he | ⟨rfl, -, -⟩
    · exact h.tokens e he
    · exact htoken
  docs e he d hd := by
    rcases mem_addPosting he with he | ⟨-, -, hdocs⟩
    · exact h.docs e he d hd
    · rcases hdocs d hd with rfl | ⟨list, hlist, hd⟩
      · exact hdoc
      · exact h.docs _ hlist d hd
  posting t d := by
    rw [posting_addPosting_iff h.valid, h.posting, live_concat]
    constructor
    · rintro (hlive | ⟨rfl, rfl⟩)
      · exact .inr ⟨hlive, fun dead hdead => by cases hdead⟩
      · exact .inl rfl
    · rintro (heq | ⟨hlive, -⟩)
      · cases heq
        exact .inr ⟨rfl, rfl⟩
      · exact .inl hlive

theorem Kept.dropDocs {calls : List Call} (h : Kept intl calls shard) (dead : ℕ → Bool) :
    Kept intl (calls ++ [.dropDocs dead]) (Search.dropDocs shard dead).1 where
  valid := valid_dropDocs h.valid dead
  nonempty e he := (mem_dropDocs.mp he).1
  tokens e he := by
    obtain ⟨-, list, hlist, -⟩ := mem_dropDocs.mp he
    exact h.tokens (e.1, list) hlist
  docs e he d hd := by
    obtain ⟨-, list, hlist, heq⟩ := mem_dropDocs.mp he
    rw [heq] at hd
    exact h.docs (e.1, list) hlist d (List.mem_filter.mp hd).1
  posting t d := by
    rw [posting_dropDocs_iff, h.posting, live_concat]
    constructor
    · rintro ⟨hlive, hd⟩
      refine .inr ⟨hlive, fun dead' hdead => ?_⟩
      cases hdead
      exact hd
    · rintro (heq | ⟨hlive, hd⟩)
      · cases heq
      · exact ⟨hlive, hd dead rfl⟩

theorem kept_built (hintl : intl.Lawful) {calls : List Call} (h : ∀ c ∈ calls, Fed intl c) :
    Kept intl calls (built calls) := by
  induction calls using List.reverseRecOn with
  | nil =>
    refine ⟨⟨List.nodup_nil, ?_, ?_⟩, ?_, ?_, ?_, ?_⟩
    · exact fun e he => by cases he
    · exact fun e he => by cases he
    · exact fun e he => by cases he
    · exact fun e he => by cases he
    · exact fun e he => by cases he
    · intro t d
      constructor
      · rintro ⟨list, hlist, -⟩
        cases hlist
      · rintro ⟨before, after, heq, -⟩
        simp at heq
  | append_singleton calls c ih =>
    have hbefore := ih fun c hc => h c (List.mem_append_left _ hc)
    have hfed := h c (List.mem_append_right _ (List.mem_singleton_self c))
    rw [built_concat]
    cases c with
    | addPosting token doc =>
      obtain ⟨⟨text, htext⟩, hdoc⟩ := hfed
      exact hbefore.addPosting hintl (token_of_mem_tokenize token htext) hdoc
    | dropDocs dead => exact hbefore.dropDocs dead

/-- A shard holds what was added and not dropped, each list without gaps or repetitions, and comes
back from storage as it was. The size of a `Map` is a number. -/
theorem shard_survives_storage (hintl : intl.Lawful) {textDecode : Bytes → String}
    (hdecode : ∀ t, Plain t → textDecode (utf8 t) = t) {calls : List Call}
    (hfed : ∀ c ∈ calls, Fed intl c) (hsize : (built calls).length ≤ 2 ^ 53) :
    (∀ e ∈ built calls, e.2 ≠ [] ∧ e.2.Pairwise (· < ·)) ∧ ((built calls).map Prod.fst).Nodup ∧
      (∀ t d, (built calls).Posting t d ↔ Live calls t d) ∧
        Doubles.decodeShard textDecode (Doubles.encodeShard (built calls)) =
        some (built calls) := by
  have hkept := kept_built hintl hfed
  refine ⟨fun e he => ⟨hkept.nonempty e he, hkept.valid.ascending e he⟩, hkept.valid.nodup,
    hkept.posting, ?_⟩
  apply Doubles.decodeShard_encodeShard hdecode hkept.valid
  refine ⟨hsize, fun e he => ?_, hkept.docs⟩
  exact (hkept.tokens e he).length_utf8.trans (by decide)

section Example

def latin : Intl where
  normalize _ s := s
  toLowerCase s := s
  mark _ := false
  letter c := c.isAlpha
  number c := c.isDigit
  ideographic _ := false
  segmenter := none

theorem latin_lawful : latin.Lawful := ⟨by decide, by decide⟩

/-- A document that comes late, one that takes more than 32 bits, and one that is dropped. -/
def calls₀ : List Call :=
  [.addPosting "to" 9, .addPosting "to" 3, .addPosting "be" 5000000000, .dropDocs (· == 9),
    .addPosting "be" 7]

theorem fed_calls₀ : ∀ c ∈ calls₀, Fed latin c := by
  have hto : "to" ∈ latin.tokenize (Js.Text.ofString "to be") := by decide
  have hbe : "be" ∈ latin.tokenize (Js.Text.ofString "to be") := by decide
  intro c hc
  simp only [calls₀, List.mem_cons, List.not_mem_nil, or_false] at hc
  rcases hc with rfl | rfl | rfl | rfl | rfl
  · exact ⟨⟨_, hto⟩, by decide⟩
  · exact ⟨⟨_, hto⟩, by decide⟩
  · exact ⟨⟨_, hbe⟩, by decide⟩
  · trivial
  · exact ⟨⟨_, hbe⟩, by decide⟩

theorem built_calls₀ : built calls₀ = [("to", [3]), ("be", [7, 5000000000])] := by decide

theorem shard_survives_storage_late :
    Doubles.decodeShard ofUtf8 (Doubles.encodeShard (built calls₀)) = some (built calls₀) :=
  (shard_survives_storage latin_lawful (fun t _ => ofUtf8_utf8 t) fed_calls₀
    (by rw [built_calls₀]; decide)).2.2.2

end Example

end Runs

end Dmcn.Web.Search
