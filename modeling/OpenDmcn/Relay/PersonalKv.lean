import OpenDmcn.Lib.Base64
import OpenDmcn.Relay.Frames
import Mathlib.Data.String.Basic
import Mathlib.Algebra.Order.BigOperators.Group.List

/-! The personal store of an owner (`personalkv_store.go`): sealed blobs under keys the owner
chooses, each with a version that counts its writes. -/

namespace Dmcn

open Go Datastore Protobuf

structure KvRecord where
  version : UInt64
  sealed : Bytes
  deriving DecidableEq, Inhabited

deriving instance Countable for KvRecord

namespace KvRecord

def jsonVersion : List Char := "\x7b\"version\":".toList
def jsonSealed : List Char := ",\"sealed\":\"".toList
def jsonEnd : List Char := "\"\x7d".toList

def jsonChars (rec : KvRecord) : List Char :=
  jsonVersion ++
    (Nat.toDigits 10 rec.version.toNat ++ (jsonSealed ++ (Base64.encode rec.sealed ++ jsonEnd)))

def json (rec : KvRecord) : Bytes := utf8 (String.ofList rec.jsonChars)

def ofJson (data : Bytes) : Option KvRecord := do
  let rest := (ofUtf8 data).toList.drop jsonVersion.length
  let sealed ← Base64.decode
      (((rest.dropWhile Char.isDigit).drop jsonSealed.length).takeWhile (· ≠ '"'))
  let record : KvRecord :=
    ⟨UInt64.ofNat (Nat.ofDigitChars 10 (rest.takeWhile Char.isDigit) 0), sealed⟩
  if record.json = data then return record else none

theorem ofJson_json (rec : KvRecord) : ofJson rec.json = some rec := by
  have hdigits : ∀ c ∈ Nat.toDigits 10 rec.version.toNat, c.isDigit = true :=
    fun c hc => Nat.isDigit_of_mem_toDigits (by decide) (by decide) hc
  have hsealed : ∀ c ∈ Base64.encode rec.sealed, decide (c ≠ '"') = true := by
    intro c hc
    apply decide_eq_true
    rintro rfl
    exact absurd (Base64.mem_encode hc) (by decide)
  have hrest : (ofUtf8 rec.json).toList.drop jsonVersion.length =
      Nat.toDigits 10 rec.version.toNat ++
        (jsonSealed ++ (Base64.encode rec.sealed ++ jsonEnd)) := by
    rw [json, ofUtf8_utf8, String.toList_ofList, jsonChars, List.drop_left]
  have hstop : (jsonSealed ++ (Base64.encode rec.sealed ++ jsonEnd)).takeWhile Char.isDigit = [] ∧
      (jsonSealed ++ (Base64.encode rec.sealed ++ jsonEnd)).dropWhile Char.isDigit =
        jsonSealed ++ (Base64.encode rec.sealed ++ jsonEnd) := ⟨rfl, rfl⟩
  have hquote : jsonEnd.takeWhile (fun c => decide (c ≠ '"')) = [] := rfl
  unfold ofJson
  rw [hrest]
  dsimp only
  rw [List.takeWhile_append_of_pos hdigits, List.dropWhile_append_of_pos hdigits, hstop.1, hstop.2,
    List.drop_left, List.takeWhile_append_of_pos hsealed, hquote, List.append_nil, List.append_nil,
      Base64.decode_encode,
    Nat.ofDigitChars_ten_toDigits, UInt64.ofNat_toNat]
  exact if_pos rfl

def encoding : Encoding KvRecord := ⟨json, ofJson, ofJson_json⟩

theorem ascii_jsonChars (rec : KvRecord) : ∀ c ∈ rec.jsonChars, c.toNat ≤ 127 := by
  have hversion : ∀ c ∈ jsonVersion, c.toNat ≤ 127 := List.all_iff_forall_prop.mp (by decide)
  have hsealed : ∀ c ∈ jsonSealed, c.toNat ≤ 127 := List.all_iff_forall_prop.mp (by decide)
  have hend : ∀ c ∈ jsonEnd, c.toNat ≤ 127 := List.all_iff_forall_prop.mp (by decide)
  intro c hc
  unfold jsonChars at hc
  simp only [List.mem_append] at hc
  rcases hc with hc | hc | hc | hc | hc
  · exact hversion c hc
  · exact toNat_le_of_isDigit (Nat.isDigit_of_mem_toDigits (by decide) (by decide) hc)
  · exact hsealed c hc
  · rcases Base64.mem_encode hc with halpha | rfl
    · exact Base64.ascii_alphabet c halpha
    · decide
  · exact hend c hc

theorem length_json (rec : KvRecord) : rec.json.length =
    24 + (Nat.toDigits 10 rec.version.toNat).length + 4 * ((rec.sealed.length + 2) / 3) := by
  have hfixed : jsonVersion.length = 11 ∧ jsonSealed.length = 11 ∧ jsonEnd.length = 2 := by decide
  have hascii : ∀ c ∈ (String.ofList rec.jsonChars).toList, c.toNat ≤ 127 := by
    rw [String.toList_ofList]
    exact rec.ascii_jsonChars
  rw [json, length_utf8_ascii hascii, String.toList_ofList, jsonChars]
  simp only [List.length_append, Base64.length_encode, hfixed]
  omega

end KvRecord

structure KvItem where
  key : String
  sealed : Bytes
  version : UInt64

def KvItem.toProto (item : KvItem) : Pb.MailboxKvItem := ⟨item.key, item.sealed, item.version⟩

inductive KvError where
  | unsupported | badKey | emptyBlob | conflict | quotaExceeded | unreadable
  deriving DecidableEq

def personalKvPrefix : String := "/dmcn/personalkv"

namespace PersonalKv

def ownerPrefix (ownerHex : String) : String := personalKvPrefix ++ "/" ++ ownerHex

def safeChar (c : Char) : Bool :=
  (decide ('a' ≤ c) && decide (c ≤ 'z')) || (decide ('A' ≤ c) && decide (c ≤ 'Z')) ||
    (decide ('0' ≤ c) && decide (c ≤ '9')) || c == '_' || c == '-' || c == '.' || c == '/'

def validKvKey (key : String) : Bool :=
  if key = "" ∨ (utf8 key).length > 512 then false
  else if Strings.hasPrefix key "/" || Strings.hasSuffix key "/" then false
  else if (segments key).any (fun seg => decide (seg = "" ∨ seg = "." ∨ seg = "..")) then false
  else key.toList.all safeChar

def kvKey (ownerHex key : String) : Except KvError Key :=
  if validKvKey key = false then .error .badKey
  else
    let op := ownerPrefix ownerHex
    let k := newKey [op ++ "/" ++ key]
    if Strings.hasPrefix (text k ++ "/") (op ++ "/") = false then .error .badKey else .ok k

def get (kv : Encoding KvRecord) (disk : Disk) (ownerHex key : String) : Except KvError
    (Option KvRecord) :=
  match kvKey ownerHex key with
  | .error e => .error e
  | .ok k =>
    match disk.lookup k with
    | none => .ok none
    | some data =>
      match kv.unmarshal data with
      | none => .error .unreadable
      | some rec => .ok (some rec)

def storedVersion (kv : Encoding KvRecord) (disk : Disk) (k : Key) : UInt64 :=
  (((disk.lookup k).bind kv.unmarshal).map KvRecord.version).getD 0

def put (kv : Encoding KvRecord) (disk : Disk) (ownerHex key : String) (sealed : Bytes)
    (expectedVersion : UInt64) : Except KvError (Disk × UInt64) :=
  match kvKey ownerHex key with
  | .error e => .error e
  | .ok k =>
    if sealed.length = 0 then .error .emptyBlob
    else
      let cur := storedVersion kv disk k
      if expectedVersion ≠ 0 ∧ cur ≠ expectedVersion then .error .conflict
      else .ok (Datastore.put disk k (kv.marshal ⟨cur + 1, sealed⟩), cur + 1)

def delete (disk : Disk) (ownerHex key : String) : Except KvError Disk :=
  match kvKey ownerHex key with
  | .error e => .error e
  | .ok k => .ok (disk.erase k)

def listItem (kv : Encoding KvRecord) (values : Bool) (logical : String) (value : Bytes) :
    Option KvItem :=
  if values then (kv.unmarshal value).map fun rec => ⟨logical, rec.sealed, rec.version⟩
  else some ⟨logical, [], 0⟩

def listLoop (kv : Encoding KvRecord) (op pre : String) (limit : ℤ) (cursor : String)
    (values : Bool) :
    List (Key × Bytes) → List KvItem → String → List KvItem × String
  | [], items, lastKey => (items, lastKey)
  | r :: rs, items, lastKey =>
    let logical := Strings.trimPrefix (text r.1) (op ++ "/")
    if cursor ≠ "" ∧ text r.1 ≤ cursor then listLoop kv op pre limit cursor values rs items lastKey
    else if logical = text r.1 then listLoop kv op pre limit cursor values rs items lastKey
    else if pre ≠ "" ∧ Strings.hasPrefix logical pre = false then
      listLoop kv op pre limit cursor values rs items lastKey
    else
      match listItem kv values logical r.2 with
      | none => listLoop kv op pre limit cursor values rs items lastKey
      | some it =>
        if ((items ++ [it]).length : ℤ) ≥ limit then (items ++ [it], text r.1)
        else listLoop kv op pre limit cursor values rs (items ++ [it]) (text r.1)

def list (kv : Encoding KvRecord) (pick : List Key) (disk : Disk) (ownerHex pre : String)
    (limit : ℤ) (cursor : String) (values : Bool) : Except KvError (List KvItem × String) :=
  let limit := if limit ≤ 0 then 50 else limit
  let op := ownerPrefix ownerHex
  let p := Strings.trimSuffix pre "/"
  if pre ≠ "" ∧ validKvKey p = false then .error .badKey
  else
    let qprefix := if pre ≠ "" then op ++ "/" ++ p else op
    let (items, lastKey) :=
      listLoop kv op pre limit cursor values (query (newKey [ qprefix]) pick disk) [] ""
    .ok (items, if (items.length : ℤ) = limit then lastKey else "")

def statsPrefix (pick : List Key) (disk : Disk) (pre : String) : UInt64 × UInt64 :=
  (query (newKey [pre]) pick disk).foldl (fun acc r => (acc.1 + 1, acc.2 + UInt64.ofNat r.2.length))
    (0, 0)

def statsOwner (pick : List Key) (disk : Disk) (ownerHex : String) : UInt64 × UInt64 :=
  statsPrefix pick disk (ownerPrefix ownerHex)

section Keys

def ownerKey (rx : Fixed 32) : Key := ["dmcn", "personalkv", Hex.encode rx.val]

theorem plain_ownerKey (rx : Fixed 32) : ∀ part ∈ ownerKey rx, Plain part := by
  have hfixed : Plain "dmcn" ∧ Plain "personalkv" := by decide
  simp [ownerKey, hfixed, plain_hash]

theorem text_ownerKey (rx : Fixed 32) : text (ownerKey rx) = ownerPrefix (Hex.encode rx.val) := by
  apply String.toList_inj.mp
  rw [toList_text (show ownerKey rx ≠ [] from List.cons_ne_nil _ _), ownerPrefix,
    String.toList_append, String.toList_append]
  simp [ownerKey, personalKvPrefix]

theorem newKey_ownerPrefix (rx : Fixed 32) : newKey [ownerPrefix (Hex.encode rx.val)] = ownerKey
    rx := by
  rw [← text_ownerKey]
  exact newKey_text (List.cons_ne_nil _ _) (plain_ownerKey rx)

theorem plain_segments {key : String} (h : validKvKey key = true) : ∀ segment ∈ segments key,
    Plain segment := by
  unfold validKvKey at h
  split at h
  · cases h
  · split at h
    · cases h
    · split at h
      · cases h
      · next hsegments =>
        intro segment hsegment
        rw [Bool.not_eq_true, List.any_eq_false] at hsegments
        have hok := hsegments segment hsegment
        rw [decide_eq_true_eq, not_or, not_or] at hok
        exact ⟨hok.1, hok.2.1, hok.2.2, slash_notMem_segments hsegment⟩

theorem newKey_ownerPrefix_slash (rx : Fixed 32) {path : String} (h : validKvKey path = true) :
    newKey [ownerPrefix (Hex.encode rx.val) ++ "/" ++ path] = ownerKey rx ++ segments path := by
  rw [← text_ownerKey]
  exact newKey_text_slash (List.cons_ne_nil _ _) (plain_ownerKey rx) (plain_segments h)

theorem segments_ne_nil (path : String) : segments path ≠ [] := by
  unfold segments
  simp

theorem kvKey_of_valid (rx : Fixed 32) {key : String} (h : validKvKey key = true) :
    kvKey (Hex.encode rx.val) key = .ok (ownerKey rx ++ segments key) := by
  have hbelow : Strings.hasPrefix (text (ownerKey rx ++ segments key) ++ "/")
      (ownerPrefix (Hex.encode rx.val) ++ "/") = true := by
    obtain ⟨part, parts, hparts⟩ := List.exists_cons_of_ne_nil (segments_ne_nil key)
    have howner : ownerKey rx ≠ [] := List.cons_ne_nil _ _
    unfold Strings.hasPrefix
    rw [← text_ownerKey, List.isPrefixOf_iff_prefix, String.toList_append, String.toList_append,
      toList_text (List.append_ne_nil_of_left_ne_nil howner _), toList_text howner,
        List.flatMap_append, hparts,
      List.flatMap_cons]
    exact ⟨part.toList ++ parts.flatMap (fun part => '/' :: part.toList) ++ ['/'], by simp⟩
  unfold kvKey
  rw [if_neg (by simp [h])]
  dsimp only
  rw [newKey_ownerPrefix_slash rx h, if_neg (by simp [hbelow])]

theorem kvKey_eq_ok {rx : Fixed 32} {key : String} {k : Key}
    (h : kvKey (Hex.encode rx.val) key = .ok k) :
    k = ownerKey rx ++ segments key := by
  unfold kvKey at h
  dsimp only at h
  split at h
  · cases h
  · next hvalid =>
    split at h
    · cases h
    · cases h
      exact newKey_ownerPrefix_slash rx (by simpa using hvalid)

theorem under_ownerKey {rx rx' : Fixed 32} {rest : Key}
    (h : under (ownerKey rx') (ownerKey rx ++ rest) = true) :
    rx' = rx := by
  unfold under ownerKey at h
  simp only [List.cons_append, List.nil_append, List.isPrefixOf_cons_cons, BEq.rfl, Bool.true_and,
    Bool.and_eq_true, beq_iff_eq] at h
  exact Fixed.ext (Hex.encode_injective h.1.1)

end Keys

section Load

variable {kv : Encoding KvRecord} {disk : Disk}

def itemLoad (kv : Encoding KvRecord) (ownerHex : String) (r : Key × Bytes) : ℕ :=
  let stored := (kv.unmarshal r.2).getD ⟨0, []⟩
  framed 1 (Pb.MailboxKvItem.marshal
    ⟨Strings.trimPrefix (text r.1) (ownerPrefix ownerHex ++ "/"), stored.sealed, stored.version⟩)

def kvLoad (kv : Encoding KvRecord) (disk : Disk) (rx : Fixed 32) : ℕ :=
  ((query (ownerKey rx) [] disk).map (itemLoad kv (Hex.encode rx.val))).sum

def kvLoadBut (kv : Encoding KvRecord) (disk : Disk) (rx : Fixed 32) (k : Key) : ℕ :=
  (((query (ownerKey rx) [] disk).filter fun r => decide (r.1 ≠ k)).map
    (itemLoad kv (Hex.encode rx.val))).sum

theorem load_listItem {ownerHex : String} {values : Bool} {r : Key × Bytes} {it : KvItem}
    (h : listItem kv values (Strings.trimPrefix (text r.1) (ownerPrefix ownerHex ++ "/")) r.2 =
      some it) :
    framed 1 it.toProto.marshal ≤ itemLoad kv ownerHex r := by
  unfold listItem at h
  cases values with
  | true =>
    obtain ⟨rec, hrec, rfl⟩ := Option.map_eq_some_iff.mp h
    unfold itemLoad
    rw [hrec]
    exact le_rfl
  | false =>
    cases h
    apply framed_mono
    unfold KvItem.toProto Pb.MailboxKvItem.marshal
    dsimp only
    rw [length_encode_append, length_encode_append, length_encode_append, length_encode_append,
      length_encode_bytes 2 [], length_encode_int 3 (UInt64.toNat 0), if_pos rfl,
        if_pos (show UInt64.toNat 0 = 0 from rfl)]
    omega

theorem load_listLoop (kv : Encoding KvRecord) (ownerHex pre cursor : String) (limit : ℤ)
    (values : Bool) (rs : List (Key × Bytes)) (items : List KvItem) (lastKey : String) :
    ((listLoop kv (ownerPrefix ownerHex) pre limit cursor values rs items lastKey).1.map
        fun it => framed 1 it.toProto.marshal).sum ≤
      (items.map fun it => framed 1 it.toProto.marshal).sum + (rs.map (itemLoad kv ownerHex)).sum ∧
    ((listLoop kv (ownerPrefix ownerHex) pre limit cursor values rs items lastKey).2 = lastKey ∨
      ∃ r ∈ rs, (listLoop kv (ownerPrefix ownerHex) pre limit cursor values rs items lastKey).2 =
        text r.1) := by
  induction rs generalizing items lastKey with
  | nil => exact ⟨le_rfl, .inl rfl⟩
  | cons r rs ih =>
    have hskip :
        ((listLoop kv (ownerPrefix ownerHex) pre limit cursor values rs items lastKey).1.map
          fun it => framed 1 it.toProto.marshal).sum ≤
            (items.map fun it => framed 1 it.toProto.marshal).sum +
          ((r :: rs).map (itemLoad kv ownerHex)).sum ∧
        ((listLoop kv (ownerPrefix ownerHex) pre limit cursor values rs items lastKey).2 = lastKey ∨
          ∃ r' ∈ r :: rs,
            (listLoop kv (ownerPrefix ownerHex) pre limit cursor values rs items lastKey).2 =
              text r'.1) := by
      obtain ⟨hload, hlast⟩ := ih items lastKey
      rw [List.map_cons, List.sum_cons]
      refine ⟨by omega, hlast.imp id ?_⟩
      rintro ⟨r', hr', heq⟩
      exact ⟨r', List.mem_cons_of_mem _ hr', heq⟩
    rw [listLoop]
    split
    · exact hskip
    · split
      · exact hskip
      · split
        · exact hskip
        · split
          · exact hskip
          · next it hitem =>
            have hitems : ((items ++ [it]).map fun it => framed 1 it.toProto.marshal).sum ≤
                (items.map fun it => framed 1 it.toProto.marshal).sum + itemLoad kv ownerHex r := by
              have hone := load_listItem hitem
              rw [List.map_append, List.sum_append, List.map_singleton, List.sum_singleton]
              omega
            rw [List.map_cons, List.sum_cons]
            split
            · exact ⟨hitems.trans (by omega), .inr ⟨r, List.mem_cons_self .., rfl⟩⟩
            · obtain ⟨hload, hlast⟩ := ih (items ++ [it]) (text r.1)
              refine ⟨by omega, .inr ?_⟩
              rcases hlast with heq | ⟨r', hr', heq⟩
              · exact ⟨r, List.mem_cons_self .., heq⟩
              · exact ⟨r', List.mem_cons_of_mem _ hr', heq⟩

theorem under_of_queried {rx : Fixed 32} {pre : String} {key : Key}
    (hvalid : ¬ (pre ≠ "" ∧ validKvKey (Strings.trimSuffix pre "/") = false))
    (h : under (newKey
      [if pre ≠ "" then ownerPrefix (Hex.encode rx.val) ++ "/" ++ Strings.trimSuffix pre "/"
      else ownerPrefix (Hex.encode rx.val)]) key = true) : under (ownerKey rx) key = true := by
  by_cases hpre : pre ≠ ""
  · have hp : validKvKey (Strings.trimSuffix pre "/") = true := by simpa [hpre] using hvalid
    rw [if_pos hpre, newKey_ownerPrefix_slash rx hp] at h
    unfold under at h ⊢
    rw [Bool.and_eq_true, List.isPrefixOf_iff_prefix, decide_eq_true_iff] at h ⊢
    rw [List.length_append] at h
    exact ⟨(List.prefix_append _ _).trans h.1, by omega⟩
  · rwa [if_neg hpre, newKey_ownerPrefix] at h

theorem sum_le_of_subset {rs rs' : List (Key × Bytes)} (hnodup : rs.Nodup) (hsub : rs ⊆ rs')
    (w : Key × Bytes → ℕ) : (rs.map w).sum ≤ (rs'.map w).sum := by
  obtain ⟨l, hperm, hsublist⟩ := List.subperm_of_subset hnodup hsub
  rw [← (hperm.map w).sum_eq]
  exact (hsublist.map w).sum_le_sum fun _ _ => Nat.zero_le _

theorem load_list {pick : List Key} {rx : Fixed 32} {pre cursor next : String} {limit : ℤ}
    {values : Bool} {items : List KvItem}
    (h : list kv pick disk (Hex.encode rx.val) pre limit cursor values = .ok (items, next)) :
    (items.map fun it => framed 1 it.toProto.marshal).sum ≤ kvLoad kv disk rx ∧
    (next = "" ∨ ∃ key, disk.lookup key ≠ none ∧ under (ownerKey rx) key = true ∧
      next = text key) := by
  unfold list at h
  dsimp only at h
  generalize (if limit ≤ 0 then 50 else limit) = bound at h
  split at h
  · cases h
  · next hvalid =>
    have hunder : ∀ key, under (newKey [if pre ≠ "" then ownerPrefix (Hex.encode rx.val) ++ "/" ++
        Strings.trimSuffix pre "/" else ownerPrefix (Hex.encode rx.val)]) key = true →
        under (ownerKey rx) key = true := fun key => under_of_queried hvalid
    generalize newKey [if pre ≠ "" then ownerPrefix (Hex.encode rx.val) ++ "/" ++
      Strings.trimSuffix pre "/"
      else ownerPrefix (Hex.encode rx.val)] = q at h hunder
    obtain ⟨hload, hlast⟩ :=
      load_listLoop kv (Hex.encode rx.val) pre cursor bound values (query q pick disk) [] ""
    simp only [Except.ok.injEq, Prod.mk.injEq] at h
    obtain ⟨rfl, rfl⟩ := h
    rw [List.map_nil, List.sum_nil, Nat.zero_add] at hload
    refine ⟨hload.trans (sum_le_of_subset ((nodup_query _ _ _).of_map _) ?_ _), ?_⟩
    · rintro ⟨key, value⟩ hr
      rw [mem_query] at hr ⊢
      exact ⟨hr.1, hunder key hr.2⟩
    · split
      · rcases hlast with hempty | ⟨⟨key, value⟩, hr, heq⟩
        · exact .inl hempty
        · rw [mem_query] at hr
          exact .inr ⟨key, by simp [hr.1], hunder key hr.2, heq⟩
      · exact .inl rfl

theorem kvLoad_put {rx : Fixed 32} {k : Key} (value : Bytes) (hk : under (ownerKey rx) k = true) :
    kvLoad kv (Datastore.put disk k value) rx =
      kvLoadBut kv disk rx k + itemLoad kv (Hex.encode rx.val) (k, value) := by
  have hperm : (query (ownerKey rx) [] (Datastore.put disk k value)).Perm
      ((k, value) :: (query (ownerKey rx) [] disk).filter fun r => decide (r.1 ≠ k)) := by
    apply perm_query_cons [] [] hk
    · rw [lookup_put, if_pos rfl]
    · intro key hkey _
      rw [lookup_put, if_neg hkey]
  unfold kvLoad kvLoadBut
  rw [(hperm.map _).sum_eq, List.map_cons, List.sum_cons, Nat.add_comm]

theorem kvLoad_eq {disk' : Disk} {rx : Fixed 32}
    (h : ∀ key, under (ownerKey rx) key = true → disk'.lookup key = disk.lookup key) :
    kvLoad kv disk' rx = kvLoad kv disk rx := by
  unfold kvLoad
  rw [((perm_query_of_agree [] [] h).map _).sum_eq]

end Load

end PersonalKv

end Dmcn
