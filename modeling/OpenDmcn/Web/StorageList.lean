import OpenDmcn.Lib.Utf8
import OpenDmcn.Relay.PersonalKv

/-! A listing of personal storage: from the browser (`api/personalStore.ts`) by the web backend
(`web/api/mailbox.go`, `dmcnd/relayadapter.go`) to the store of the relay. A page that is full gives
the key of its last item as the cursor of the next, and the backend reads a cursor as base64. -/

namespace Dmcn.Web.Storage

open Go Datastore Protobuf PersonalKv

inductive ApiError where
  | invalidCursor
  | kv (e : KvError)
  deriving DecidableEq

structure KvItemData where
  key : String
  sealed : String
  version : UInt64

structure KvListResp where
  items : List KvItemData
  nextCursor : String

section Backend

variable (kv : Encoding KvRecord) (pick : List Key) (disk : Disk)

def listFrom (ownerHex pre : String) (limit : ℤ) (cursor : Bytes) (values : Bool) : Except KvError
    (List KvItem × String) :=
  let limit := if limit ≤ 0 then 50 else limit
  let op := ownerPrefix ownerHex
  let p := Strings.trimSuffix pre "/"
  if pre ≠ "" ∧ validKvKey p = false then .error .badKey
  else
    let qprefix := if pre ≠ "" then op ++ "/" ++ p else op
    let results := (query (newKey [ qprefix]) pick disk).filter fun r => cursor = [] ∨
      ¬ utf8 (text r.1) ≤ cursor
    let (items, lastKey) := listLoop kv op pre limit "" values results [] ""
    .ok (items, if (items.length : ℤ) = limit then lastKey else "")

def handleChallenge (cursor : String) : Except ApiError Bytes :=
  if cursor = "" then .ok []
  else
    match Base64.decode cursor.toList with
    | none => .error .invalidCursor
    | some cur => .ok cur

def handleComplete (ownerHex pre : String) (cursor : Bytes) (values : Bool) :
    Except ApiError KvListResp :=
  match listFrom kv pick disk ownerHex pre 0 cursor values with
  | .error e => .error (.kv e)
  | .ok (items, next) =>
    .ok ⟨items.map fun it => ⟨it.key, String.ofList (Base64.encode it.sealed), it.version⟩, next⟩

def kvList (ownerHex pre cursor : String) (values : Bool) : Except ApiError KvListResp :=
  match handleChallenge cursor with
  | .error e => .error e
  | .ok cur => handleComplete kv pick disk ownerHex pre cur values

theorem utf8_eq_nil {s : String} : utf8 s = [] ↔ s = "" := by
  rw [utf8_eq, ← String.toList_eq_nil_iff]
  exact Utf8.encode_eq_nil

theorem listLoop_filter (op pre : String) (limit : ℤ) (cursor : String) (values : Bool)
    (results : List (Key × Bytes)) (items : List KvItem) (lastKey : String) :
    listLoop kv op pre limit "" values
        (results.filter fun r => utf8 cursor = [] ∨ ¬ utf8 (text r.1) ≤ utf8 cursor) items lastKey =
      listLoop kv op pre limit cursor values results items lastKey := by
  induction results generalizing items lastKey with
  | nil => rfl
  | cons r results ih =>
    by_cases hpast : cursor ≠ "" ∧ text r.1 ≤ cursor
    · have hskipped : ¬ (utf8 cursor = [] ∨ ¬ utf8 (text r.1) ≤ utf8 cursor) := by
        rw [utf8_eq_nil, Utf8.utf8_le_utf8, not_or, not_not]
        exact hpast
      rw [List.filter_cons_of_neg (by simpa using hskipped), ih, listLoop.eq_2, if_pos hpast]
    · have hkept : utf8 cursor = [] ∨ ¬ utf8 (text r.1) ≤ utf8 cursor := by
        rw [utf8_eq_nil, Utf8.utf8_le_utf8]
        exact (not_and_or.mp hpast).imp not_not.mp id
      rw [List.filter_cons_of_pos (by simpa using hkept), listLoop.eq_2, listLoop.eq_2]
      simp only [ih, hpast, ne_eq, not_true_eq_false, false_and, if_false]

/-- From a cursor that is text the listing is that of the store. -/
theorem listFrom_utf8 (ownerHex pre : String) (limit : ℤ) (cursor : String) (values : Bool) :
    listFrom kv pick disk ownerHex pre limit (utf8 cursor) values =
      PersonalKv.list kv pick disk ownerHex pre limit cursor values := by
  unfold listFrom PersonalKv.list
  simp only [listLoop_filter]

end Backend

structure StorageEntry (α : Type) where
  key : String
  value : Option α
  version : UInt64

section Browser

variable {α : Type} (unsealBlob : Bytes → Option α) (kv : Encoding KvRecord) (pick : List Key)
  (disk : Disk)

def entryOf (withValues : Bool) (it : KvItemData) : Option (StorageEntry α) :=
  if withValues = false then some ⟨it.key, none, it.version⟩
  else if it.sealed = "" then none
  else ((Base64.decode it.sealed.toList).bind unsealBlob).map fun value =>
    ⟨it.key, some value, it.version⟩

def listInternal (ownerHex pre : String) (withValues : Bool) :
    ℕ → String → List (StorageEntry α) → Option (Except ApiError (List (StorageEntry α)))
  | 0, _, _ => none
  | n + 1, cursor, out =>
    match kvList kv pick disk ownerHex pre cursor withValues with
    | .error e => some (.error e)
    | .ok res =>
      let out := out ++ res.items.filterMap (entryOf unsealBlob withValues)
      if res.nextCursor = "" then some (.ok out) else listInternal ownerHex pre withValues n
        res.nextCursor out

def shown (withValues : Bool) (key : String) (rec : KvRecord) : StorageEntry α :=
  if withValues then ⟨key, unsealBlob rec.sealed, rec.version⟩ else ⟨key, none, 0⟩

/-- The records of the owner whose key starts with the prefix, each once, and nothing else. -/
structure Complete (ownerHex pre : String) (withValues : Bool) (entries : List (StorageEntry α)) :
    Prop where
  once : (entries.map StorageEntry.key).Nodup
  all : ∀ e, e ∈ entries ↔ ∃ key rec, PersonalKv.get kv disk ownerHex key = .ok (some rec) ∧
    Strings.hasPrefix key pre = true ∧ e = shown unsealBlob withValues key rec

def Lists (ownerHex pre : String) (withValues : Bool) : Prop :=
  ∃ n entries, listInternal unsealBlob kv pick disk ownerHex pre withValues n "" [] =
    some (.ok entries) ∧
    Complete unsealBlob kv disk ownerHex pre withValues entries

end Browser

structure Put where
  owner : Fixed 32
  key : String
  sealed : Bytes
  expectedVersion : UInt64

def written (kv : Encoding KvRecord) (disk : Disk) (puts : List Put) : Disk :=
  puts.foldl (fun disk p =>
    match PersonalKv.put kv disk (Hex.encode p.owner.val) p.key p.sealed p.expectedVersion with
    | .ok (disk, _) => disk
    | .error _ => disk) disk

def Namespace (pre : String) : Prop := pre = "" ∨ ∃ p, pre = p ++ "/" ∧ validKvKey p = true

def logicalOf (rx : Fixed 32) (r : Key × Bytes) : String :=
  Strings.trimPrefix (text r.1) (ownerPrefix (Hex.encode rx.val) ++ "/")

def matching (pick : List Key) (disk : Disk) (rx : Fixed 32) (pre : String) : List (Key × Bytes) :=
  (query (ownerKey rx) pick disk).filter fun r => Strings.hasPrefix (logicalOf rx r) pre

section Stored

variable {kv : Encoding KvRecord} {pick : List Key} {disk : Disk} {rx : Fixed 32}

def Held (kv : Encoding KvRecord) (disk : Disk) (rx : Fixed 32) : Prop :=
  ∀ k value, disk.lookup k = some value → under (ownerKey rx) k = true →
    ∃ key rec, validKvKey key = true ∧ k = ownerKey rx ++ segments key ∧ value = kv.marshal rec ∧
      rec.sealed ≠ []

theorem Held.put (h : Held kv disk rx) {p : Put} {disk' : Disk} {v : UInt64}
    (hput : PersonalKv.put kv disk (Hex.encode p.owner.val) p.key p.sealed p.expectedVersion =
      .ok (disk', v)) :
    Held kv disk' rx := by
  unfold PersonalKv.put at hput
  split at hput
  · cases hput
  · next k hk =>
    split at hput
    · cases hput
    · next hsealed =>
      dsimp only at hput
      split at hput
      · cases hput
      · cases hput
        intro k' value hlookup hunder
        rw [lookup_put] at hlookup
        split at hlookup
        · next heq =>
          subst heq
          have hkey := kvKey_eq_ok hk
          rw [hkey] at hunder
          have howner : rx = p.owner := under_ownerKey hunder
          refine ⟨p.key, _, ?_, howner ▸ hkey, (Option.some.inj hlookup).symm, ?_⟩
          · by_contra hvalid
            unfold kvKey at hk
            rw [if_pos (by simpa using hvalid)] at hk
            cases hk
          · exact fun hnil => hsealed (by simp [show p.sealed = [] from hnil])
        · exact h k' value hlookup hunder

theorem held_written (puts : List Put) (h : Held kv disk rx) :
    Held kv (written kv disk puts) rx := by
  induction puts generalizing disk with
  | nil => exact h
  | cons p puts ih =>
    rw [written, List.foldl_cons]
    split
    · next disk' v hput => exact ih (h.put hput)
    · exact ih h

theorem held_of_empty (h : ∀ k, under (ownerKey rx) k = true → disk.lookup k = none) :
    Held kv disk rx := by
  intro k value hlookup hunder
  rw [h k hunder] at hlookup
  cases hlookup

end Stored

section Keys

variable {rx : Fixed 32} {key pre : String}

theorem flatMap_segments : (segments key).flatMap
    (fun part => '/' :: part.toList) = '/' :: key.toList := by
  have htext := toList_text (segments_ne_nil key)
  rw [← htext, text, if_neg (segments_ne_nil key), String.toList_ofList]
  have hpieces : (segments key).map String.toList = key.toList.splitOn '/' := by
    unfold segments
    rw [List.map_map]
    simp [Function.comp_def]
  obtain ⟨piece, pieces, hcons⟩ := List.exists_cons_of_ne_nil (List.splitOn_ne_nil '/' key.toList)
  rw [hpieces, hcons, List.intercalate_cons_cons, ← hcons, List.intercalate_splitOn]
  rfl

theorem segments_injective : Function.Injective segments := by
  intro key key' h
  have hchars : '/' :: key.toList = '/' :: key'.toList := by
    rw [← flatMap_segments, ← flatMap_segments, h]
  exact String.toList_inj.mp (List.cons.inj hchars).2

theorem toList_text_stored :
    (text (ownerKey rx ++ segments key)).toList = (ownerPrefix (Hex.encode rx.val) ++ "/").toList ++
      key.toList := by
  have howner : ownerKey rx ≠ [] := List.cons_ne_nil _ _
  rw [toList_text (List.append_ne_nil_of_left_ne_nil howner _), List.flatMap_append,
    flatMap_segments, ← toList_text howner, text_ownerKey, String.toList_append, List.append_assoc]
  rfl

theorem logical_stored :
    Strings.trimPrefix (text (ownerKey rx ++ segments key))
      (ownerPrefix (Hex.encode rx.val) ++ "/") = key := by
  unfold Strings.trimPrefix
  rw [if_pos, toList_text_stored, List.drop_left, String.ofList_toList]
  unfold Strings.hasPrefix
  rw [toList_text_stored, List.isPrefixOf_iff_prefix]
  exact List.prefix_append _ _

theorem text_stored_ne : text (ownerKey rx ++ segments key) ≠ key := by
  intro h
  have hlength := congrArg (fun s : String => s.toList.length) h
  simp only [toList_text_stored, List.length_append] at hlength
  have hpos : 0 < (ownerPrefix (Hex.encode rx.val) ++ "/").toList.length := by
    rw [String.toList_append, List.length_append]
    exact Nat.lt_add_left _ (by decide)
  omega

theorem under_of_hasPrefix {p : String} (hstarts : Strings.hasPrefix key (p ++ "/") = true) :
    under (ownerKey rx ++ segments p) (ownerKey rx ++ segments key) = true := by
  unfold Strings.hasPrefix at hstarts
  rw [List.isPrefixOf_iff_prefix] at hstarts
  obtain ⟨rest, hrest⟩ := hstarts
  have hsegments : segments key = segments p ++ segments (String.ofList rest) := by
    unfold segments
    rw [← hrest, String.toList_append, List.append_assoc, show "/".toList = ['/'] from rfl,
      List.singleton_append, List.splitOn_append_cons_self, List.map_append, String.toList_ofList]
  rw [hsegments, ← List.append_assoc]
  exact under_append (segments_ne_nil _)

end Keys

section Puts

variable {kv : Encoding KvRecord} {disk : Disk} {k : Key}

theorem isSome_put {p : Put} {disk' : Disk} {v : UInt64} (h : (disk.lookup k).isSome = true)
    (hput : PersonalKv.put kv disk (Hex.encode p.owner.val) p.key p.sealed p.expectedVersion =
      .ok (disk', v)) :
    (disk'.lookup k).isSome = true := by
  unfold PersonalKv.put at hput
  split at hput
  · cases hput
  · split at hput
    · cases hput
    · dsimp only at hput
      split at hput
      · cases hput
      · cases hput
        rw [lookup_put]
        split
        · rfl
        · exact h

theorem isSome_written (puts : List Put) (h : (disk.lookup k).isSome = true) :
    ((written kv disk puts).lookup k).isSome = true := by
  induction puts generalizing disk with
  | nil => exact h
  | cons p puts ih =>
    rw [written, List.foldl_cons]
    split
    · next disk' v hput => exact ih (isSome_put h hput)
    · exact ih h

theorem stored_of_mem (kv : Encoding KvRecord) (disk : Disk) {puts : List Put} {p : Put}
    (hp : p ∈ puts) (hvalid : validKvKey p.key = true) (hsealed : p.sealed ≠ [])
    (hversion : p.expectedVersion = 0) :
    ((written kv disk puts).lookup (ownerKey p.owner ++ segments p.key)).isSome = true := by
  induction puts generalizing disk with
  | nil => cases hp
  | cons q puts ih =>
    rw [written, List.foldl_cons]
    rcases List.mem_cons.mp hp with rfl | hrest
    · have hput : PersonalKv.put kv disk (Hex.encode p.owner.val) p.key p.sealed p.expectedVersion =
          .ok (Datastore.put disk (ownerKey p.owner ++ segments p.key)
            (kv.marshal ⟨storedVersion kv disk (ownerKey p.owner ++ segments p.key) + 1, p.sealed⟩),
            storedVersion kv disk (ownerKey p.owner ++ segments p.key) + 1) := by
        have hlength : ¬ p.sealed.length = 0 := by simpa using hsealed
        unfold PersonalKv.put
        rw [kvKey_of_valid p.owner hvalid]
        dsimp only
        rw [if_neg hlength, if_neg (by simp [hversion])]
      rw [hput]
      apply isSome_written
      rw [lookup_put, if_pos rfl]
      rfl
    · exact ih _ hrest

theorem length_entries_put_le {p : Put} {disk' : Disk} {v : UInt64}
    (hput : PersonalKv.put kv disk (Hex.encode p.owner.val) p.key p.sealed p.expectedVersion =
      .ok (disk', v)) :
    disk'.entries.length ≤ disk.entries.length + 1 := by
  unfold PersonalKv.put at hput
  split at hput
  · cases hput
  · split at hput
    · cases hput
    · dsimp only at hput
      split at hput
      · cases hput
      · cases hput
        rw [Datastore.put, AList.entries_insert, List.length_cons]
        exact Nat.succ_le_succ (List.kerase_sublist _ _).length_le

theorem length_entries_written_le (puts : List Put) :
    (written kv disk puts).entries.length ≤ disk.entries.length + puts.length := by
  induction puts generalizing disk with
  | nil => exact Nat.le_refl _
  | cons p puts ih =>
    rw [written, List.foldl_cons, List.length_cons]
    split
    · next disk' v hput =>
      have hone := length_entries_put_le hput
      have hrest : (written kv disk' puts).entries.length ≤ disk'.entries.length + puts.length := ih
      rw [written] at hrest
      omega
    · have hrest : (written kv disk puts).entries.length ≤ disk.entries.length + puts.length := ih
      rw [written] at hrest
      omega

theorem length_matching_le (pick : List Key) (disk : Disk) (rx : Fixed 32) (pre : String) :
    (matching pick disk rx pre).length ≤ disk.entries.length := by
  have hvisit : ((Index.visit pick disk).filter (under (ownerKey rx))).length ≤
      disk.entries.length := by
    have hperm := (Index.perm_visit pick disk).length_eq
    rw [AList.keys, List.keys, List.length_map] at hperm
    rw [← hperm]
    exact List.length_filter_le ..
  have hquery : (query (ownerKey rx) pick disk).length ≤ disk.entries.length :=
    (List.length_filterMap_le ..).trans hvisit
  exact (List.length_filter_le ..).trans hquery

end Puts

section Page

variable {kv : Encoding KvRecord} {pick : List Key} {disk : Disk} {rx : Fixed 32} {pre : String}
  {values : Bool}

def itemOf (kv : Encoding KvRecord) (rx : Fixed 32) (values : Bool) (r : Key × Bytes) : KvItem :=
  (listItem kv values (logicalOf rx r) r.2).getD ⟨"", [], 0⟩

def Readable (kv : Encoding KvRecord) (rx : Fixed 32) (values : Bool) (r : Key × Bytes) : Prop :=
  logicalOf rx r ≠ text r.1 ∧ listItem kv values (logicalOf rx r) r.2 = some (itemOf kv rx values r)

theorem hasPrefix_empty (s : String) : Strings.hasPrefix s "" = true := rfl

theorem listLoop_eq (pre : String) {limit : ℕ} {rs : List (Key × Bytes)}
    (hrs : ∀ r ∈ rs, Readable kv rx values r) (items : List KvItem) (lastKey : String)
    (hroom : items.length < limit) :
    listLoop kv (ownerPrefix (Hex.encode rx.val)) pre limit "" values rs items lastKey =
      (items ++ (((rs.filter fun r => Strings.hasPrefix (logicalOf rx r) pre).take
        (limit - items.length)).map
          (itemOf kv rx values)),
        (((rs.filter fun r => Strings.hasPrefix (logicalOf rx r) pre).take
          (limit - items.length)).getLast?).elim lastKey
          fun r => text r.1) := by
  induction rs generalizing items lastKey with
  | nil => simp [listLoop]
  | cons r rs ih =>
    have hrest : ∀ r ∈ rs, Readable kv rx values r :=
      fun r' hr => hrs r' (List.mem_cons_of_mem _ hr)
    obtain ⟨hne, hitem⟩ := hrs r (List.mem_cons_self ..)
    have hlogical : Strings.trimPrefix (text r.1) (ownerPrefix (Hex.encode rx.val) ++ "/") =
        logicalOf rx r := rfl
    rw [listLoop, if_neg (by simp)]
    simp only [hlogical]
    rw [if_neg hne, List.filter_cons]
    cases hpre : Strings.hasPrefix (logicalOf rx r) pre with
    | false =>
      have hnonempty : pre ≠ "" := by
        rintro rfl
        exact absurd hpre (by simp [hasPrefix_empty])
      rw [if_pos ⟨hnonempty, rfl⟩, if_neg (by simp)]
      exact ih hrest items lastKey hroom
    | true =>
      rw [if_neg (by simp), if_pos rfl, hitem]
      obtain ⟨room, hlimit⟩ : ∃ room, limit - items.length = room + 1 :=
        ⟨limit - items.length - 1, by omega⟩
      rw [hlimit, List.take_succ_cons, List.map_cons]
      have hlength : (items ++ [itemOf kv rx values r]).length = items.length + 1 := by simp
      dsimp only
      by_cases hfull : room = 0
      · have hge : ((items ++ [itemOf kv rx values r]).length : ℤ) ≥ limit := by omega
        rw [if_pos hge, hfull]
        simp
      · have hlt : ¬ ((items ++ [itemOf kv rx values r]).length : ℤ) ≥ limit := by omega
        have hroom' : (items ++ [itemOf kv rx values r]).length < limit := by omega
        have hleft : limit - (items ++ [itemOf kv rx values r]).length = room := by omega
        rw [if_neg hlt, ih hrest _ _ hroom', hleft, List.append_assoc, List.getLast?_cons]
        refine Prod.ext rfl ?_
        cases ((rs.filter fun r => Strings.hasPrefix (logicalOf rx r) pre).take room).getLast?
          <;> rfl

theorem readable_of_held (hheld : Held kv disk rx) {r : Key × Bytes}
    (hlookup : disk.lookup r.1 = some r.2) (hunder : under (ownerKey rx) r.1 = true) :
    Readable kv rx values r := by
  obtain ⟨key, rec, -, hk, hvalue, -⟩ := hheld r.1 r.2 hlookup hunder
  have hlogical : logicalOf rx r = key := by rw [logicalOf, hk, logical_stored]
  refine ⟨?_, ?_⟩
  · rw [hlogical, hk]
    exact text_stored_ne.symm
  · rw [itemOf, listItem, hvalue, kv.unmarshal_marshal]
    cases values <;> rfl

def queried (rx : Fixed 32) (pre : String) : Key :=
  newKey [if pre ≠ "" then ownerPrefix (Hex.encode rx.val) ++ "/" ++ Strings.trimSuffix pre "/"
    else ownerPrefix (Hex.encode rx.val)]

theorem trimSuffix_slash (p : String) : Strings.trimSuffix (p ++ "/") "/" = p := by
  have hsuffix : Strings.hasSuffix (p ++ "/") "/" = true := by
    unfold Strings.hasSuffix
    rw [List.isSuffixOf_iff_suffix, String.toList_append]
    exact List.suffix_append _ _
  unfold Strings.trimSuffix
  rw [if_pos hsuffix, String.toList_append, List.length_append, Nat.add_sub_cancel, List.take_left,
    String.ofList_toList]

theorem Namespace.valid (hpre : Namespace pre) :
    ¬ (pre ≠ "" ∧ validKvKey (Strings.trimSuffix pre "/") = false) := by
  rintro ⟨hne, hvalid⟩
  rcases hpre with rfl | ⟨p, rfl, hp⟩
  · exact hne rfl
  · rw [trimSuffix_slash, hp] at hvalid
    cases hvalid

theorem filter_filterMap_congr {α β : Type} {p q : α → Bool} {f : α → Option β} {g : β → Bool}
    {l : List α} (h : ∀ a b, f a = some b → g b = true → p a = q a) :
    ((l.filter p).filterMap f).filter g = ((l.filter q).filterMap f).filter g := by
  rw [List.filter_filterMap, List.filter_filterMap, List.filterMap_filter, List.filterMap_filter]
  apply List.filterMap_congr
  intro a _
  cases hf : f a with
  | none => cases p a <;> cases q a <;> rfl
  | some b =>
    cases hg : g b with
    | false => cases p a <;> cases q a <;> simp [Option.filter, hg]
    | true => rw [h a b hf hg]

theorem filter_queried (hpre : Namespace pre) (hheld : Held kv disk rx) :
    (query (queried rx pre) pick disk).filter (fun r => Strings.hasPrefix (logicalOf rx r) pre) =
      matching pick disk rx pre := by
  have hsame : ∀ k value, disk.lookup k = some value →
      Strings.hasPrefix (logicalOf rx (k, value)) pre = true →
      under (queried rx pre) k = under (ownerKey rx) k := by
    intro k value hlookup hmatch
    rw [Bool.eq_iff_iff]
    refine ⟨under_of_queried hpre.valid, fun hunder => ?_⟩
    rcases hpre with rfl | ⟨p, rfl, hp⟩
    · rw [queried, if_neg (by simp), newKey_ownerPrefix]
      exact hunder
    · obtain ⟨key, rec, -, rfl, -, -⟩ := hheld k value hlookup hunder
      have hne : p ++ "/" ≠ "" := by
        intro h
        have hlength := congrArg (fun s : String => s.toList.length) h
        simp at hlength
      rw [queried, if_pos hne, trimSuffix_slash, newKey_ownerPrefix_slash rx hp]
      rw [logicalOf, logical_stored] at hmatch
      exact under_of_hasPrefix hmatch
  unfold matching query
  apply filter_filterMap_congr
  intro k r hr hmatch
  obtain ⟨value, hlookup, rfl⟩ := Option.map_eq_some_iff.mp hr
  exact hsame k value hlookup hmatch

def dataOf (it : KvItem) : KvItemData :=
  ⟨it.key, String.ofList (Base64.encode it.sealed), it.version⟩

theorem readable_of_query {q : Key} (hq : ∀ k, under q k = true → under (ownerKey rx) k = true)
    (hheld : Held kv disk rx) :
    ∀ r ∈ query q pick disk, Readable kv rx values r := by
  rintro ⟨k, value⟩ hr
  obtain ⟨hlookup, hunder⟩ := mem_query.mp hr
  exact readable_of_held hheld hlookup (hq k hunder)

theorem listFrom_first (hpre : Namespace pre) (hheld : Held kv disk rx) :
    listFrom kv pick disk (Hex.encode rx.val) pre 0 [] values =
      .ok (((matching pick disk rx pre).take 50).map (itemOf kv rx values),
        if 50 ≤ (matching pick disk rx pre).length then
          (((matching pick disk rx pre).take 50).getLast?).elim "" fun r => text r.1
        else "") := by
  have hreadable : ∀ r ∈ query (queried rx pre) pick disk, Readable kv rx values r :=
    readable_of_query (fun k => under_of_queried hpre.valid) hheld
  have hloop := listLoop_eq pre hreadable [] "" (show ([] : List KvItem).length < 50 by decide)
  rw [filter_queried hpre hheld] at hloop
  have hstart : listFrom kv pick disk (Hex.encode rx.val) pre 0 [] values =
      PersonalKv.list kv pick disk (Hex.encode rx.val) pre 0 "" values :=
    listFrom_utf8 kv pick disk _ pre 0 "" values
  rw [hstart, PersonalKv.list, if_neg hpre.valid]
  dsimp only
  have hask : newKey [if pre ≠ "" then ownerPrefix (Hex.encode rx.val) ++ "/" ++
    Strings.trimSuffix pre "/"
      else ownerPrefix (Hex.encode rx.val)] = queried rx pre := rfl
  have hlimit : (if (0 : ℤ) ≤ 0 then (50 : ℤ) else 0) = ((50 : ℕ) : ℤ) := rfl
  rw [hask, hlimit, hloop]
  simp only [List.length_nil, Nat.sub_zero, List.nil_append, List.length_map, List.length_take,
    Nat.cast_inj, min_eq_left_iff]

theorem kvList_first (hpre : Namespace pre) (hheld : Held kv disk rx) :
    kvList kv pick disk (Hex.encode rx.val) pre "" values =
      .ok ⟨((matching pick disk rx pre).take 50).map fun r => dataOf (itemOf kv rx values r),
        if 50 ≤ (matching pick disk rx pre).length then
          (((matching pick disk rx pre).take 50).getLast?).elim "" fun r => text r.1
        else ""⟩ := by
  have hchallenge : handleChallenge "" = .ok [] := rfl
  rw [kvList, hchallenge]
  dsimp only
  rw [handleComplete, listFrom_first hpre hheld]
  simp only [List.map_map, Function.comp_def, dataOf]

theorem le_of_decode {k k' : Key} {b : Bytes} (hk : under (ownerKey rx) k = true) (hk' : k' ≠ [])
    (hb : Base64.decode (text k).toList = some b) : utf8 (text k') ≤ b := by
  have hfirst : ∃ rest, (text k').toList = '/' :: rest := by
    obtain ⟨part, parts, rfl⟩ := List.exists_cons_of_ne_nil hk'
    exact ⟨part.toList ++ parts.flatMap (fun part => '/' :: part.toList),
      by rw [toList_text hk', List.flatMap_cons]; rfl⟩
  obtain ⟨rest, hrest⟩ := hfirst
  have htext : utf8 (text k') = 47 :: rest.flatMap String.utf8EncodeChar := by
    rw [utf8_eq, hrest, List.flatMap_cons]
    rfl
  have hhead : ∃ tail, (text k).toList = '/' :: 'd' :: 'm' :: 'c' :: tail := by
    have hunder := hk
    unfold under at hunder
    rw [Bool.and_eq_true, List.isPrefixOf_iff_prefix] at hunder
    obtain ⟨more, rfl⟩ := hunder.1
    have hne : ownerKey rx ++ more ≠ [] :=
      List.append_ne_nil_of_left_ne_nil (List.cons_ne_nil _ _) _
    rw [toList_text hne, ownerKey, List.cons_append, List.flatMap_cons]
    exact ⟨_, rfl⟩
  obtain ⟨tail, htail⟩ := hhead
  have hbyte : ∃ bs, b = 253 :: bs := by
    have hslash : Base64.std.value '/' = some 63 := by decide
    have hd : Base64.std.value 'd' = some 29 := by decide
    have hm : Base64.std.value 'm' = some 38 := by decide
    have hc : Base64.std.value 'c' = some 28 := by decide
    rw [htail, Base64.decode, hslash, hd, hm, hc] at hb
    simp only [Option.bind_eq_bind, Option.bind_some, Char.reduceEq, false_and, if_false] at hb
    obtain ⟨more, -, hmore⟩ := Option.bind_eq_some_iff.mp hb
    exact ⟨_, (Option.some.inj hmore).symm⟩
  obtain ⟨bs, rfl⟩ := hbyte
  rw [htext]
  exact List.le_of_lt (List.cons_lt_cons_iff.mpr (.inl (by decide)))

theorem text_ne_empty {k : Key} (hk : k ≠ []) : text k ≠ "" := by
  obtain ⟨part, parts, rfl⟩ := List.exists_cons_of_ne_nil hk
  intro h
  have hchars := congrArg String.toList h
  rw [toList_text hk, List.flatMap_cons] at hchars
  exact absurd hchars (by simp)

theorem ne_nil_of_under {q k : Key} (h : under q k = true) : k ≠ [] := by
  rintro rfl
  simp [under] at h

theorem kvList_next (hpre : Namespace pre) {k : Key} (hk : under (ownerKey rx) k = true) :
    kvList kv pick disk (Hex.encode rx.val) pre (text k) values =
      if (Base64.decode (text k).toList).isSome then .ok ⟨[], ""⟩ else .error .invalidCursor := by
  rw [kvList, handleChallenge, if_neg (text_ne_empty (ne_nil_of_under hk))]
  cases hb : Base64.decode (text k).toList with
  | none => rfl
  | some b =>
    have hne : b ≠ [] := by
      rintro rfl
      have hle := le_of_decode hk (ne_nil_of_under hk) hb
      rw [List.le_nil, utf8_eq] at hle
      obtain ⟨part, parts, rfl⟩ := List.exists_cons_of_ne_nil (ne_nil_of_under hk)
      rw [toList_text (ne_nil_of_under hk), List.flatMap_cons] at hle
      exact absurd hle (by simp [String.utf8EncodeChar])
    have hnone : (query (queried rx pre) pick disk).filter
        (fun r => decide (b = [] ∨ ¬ utf8 (text r.1) ≤ b)) = [] := by
      rw [List.filter_eq_nil_iff]
      rintro ⟨k', value⟩ hr
      have hle := le_of_decode hk (ne_nil_of_under (mem_query.mp hr).2) hb
      simp [hne, hle]
    have hask : newKey [if pre ≠ "" then ownerPrefix (Hex.encode rx.val) ++ "/" ++
      Strings.trimSuffix pre "/"
        else ownerPrefix (Hex.encode rx.val)] = queried rx pre := rfl
    dsimp only
    rw [handleComplete, listFrom, if_neg hpre.valid]
    dsimp only
    rw [hask, hnone]
    rfl

end Page

section Listing

variable {α : Type} {unsealBlob : Bytes → Option α} {kv : Encoding KvRecord} {pick : List Key}
  {disk : Disk} {rx : Fixed 32}
  {pre : String} {values : Bool}

def entryAt (unsealBlob : Bytes → Option α) (kv : Encoding KvRecord) (rx : Fixed 32) (values : Bool)
    (r : Key × Bytes) :
    StorageEntry α :=
  shown unsealBlob values (logicalOf rx r) ((kv.unmarshal r.2).getD ⟨0, []⟩)

def Opens (unsealBlob : Bytes → Option α) (kv : Encoding KvRecord) (disk : Disk) (rx : Fixed 32) :
    Prop :=
  ∀ key rec, PersonalKv.get kv disk (Hex.encode rx.val) key = .ok (some rec) →
    (unsealBlob rec.sealed).isSome = true

theorem get_eq_some {key : String} {rec : KvRecord} :
    PersonalKv.get kv disk (Hex.encode rx.val) key = .ok (some rec) ↔
      ∃ value, disk.lookup (ownerKey rx ++ segments key) = some value ∧
      kv.unmarshal value = some rec ∧ validKvKey key = true := by
  unfold PersonalKv.get
  by_cases hvalid : validKvKey key = true
  · rw [kvKey_of_valid rx hvalid]
    dsimp only
    cases hlookup : disk.lookup (ownerKey rx ++ segments key) with
    | none => simp
    | some value =>
      dsimp only
      cases hrec : kv.unmarshal value with
      | none => simp [hrec]
      | some rec' => simp [hrec, hvalid]
  · have hbad : kvKey (Hex.encode rx.val) key = .error .badKey := by
      unfold kvKey
      rw [if_pos (by simpa using hvalid)]
    rw [hbad]
    simp [hvalid]

theorem mem_matching {r : Key × Bytes} :
    r ∈ matching pick disk rx pre ↔
      disk.lookup r.1 = some r.2 ∧ under (ownerKey rx) r.1 = true ∧
      Strings.hasPrefix (logicalOf rx r) pre = true := by
  have hquery : r ∈ query (ownerKey rx) pick disk ↔ disk.lookup r.1 = some r.2 ∧
      under (ownerKey rx) r.1 = true := mem_query
  rw [matching, List.mem_filter, hquery, and_assoc]

theorem fst_mem_matching {k : Key} {value : Bytes} (hlookup : disk.lookup k = some value)
    (hunder : under (ownerKey rx) k = true) (hstarts : Strings.hasPrefix (logicalOf rx (k, value))
      pre = true) : k ∈ (matching pick disk rx pre).map Prod.fst :=
  List.mem_map.mpr ⟨(k, value), mem_matching.mpr ⟨hlookup, hunder, hstarts⟩, rfl⟩

theorem entryOf_item (hheld : Held kv disk rx) (hopens : Opens unsealBlob kv disk rx)
    {r : Key × Bytes} (hr : r ∈ matching pick disk rx pre) :
    entryOf unsealBlob values (dataOf (itemOf kv rx values r)) =
      some (entryAt unsealBlob kv rx values r) := by
  obtain ⟨hlookup, hunder, -⟩ := mem_matching.mp hr
  obtain ⟨key, rec, hvalid, hk, hvalue, hsealed⟩ := hheld r.1 r.2 hlookup hunder
  have hrec : kv.unmarshal r.2 = some rec := by rw [hvalue, kv.unmarshal_marshal]
  cases values with
  | false => rfl
  | true =>
    have hget : PersonalKv.get kv disk (Hex.encode rx.val) key = .ok (some rec) :=
      get_eq_some.mpr ⟨r.2, hk ▸ hlookup, hrec, hvalid⟩
    obtain ⟨value, hopen⟩ := Option.isSome_iff_exists.mp (hopens key rec hget)
    have hitem : itemOf kv rx true r = ⟨logicalOf rx r, rec.sealed, rec.version⟩ := by
      simp [itemOf, listItem, hrec]
    have hne : String.ofList (Base64.encode rec.sealed) ≠ "" := by
      intro h
      have hlength := congrArg (fun s : String => s.toList.length) h
      have hpos : 0 < rec.sealed.length := List.length_pos_of_ne_nil hsealed
      simp only [String.toList_ofList, Base64.length_encode, String.toList_empty, List.length_nil]
        at hlength
      omega
    rw [hitem, entryOf, if_neg (by simp), dataOf, if_neg hne]
    simp only [String.toList_ofList, Base64.decode_encode, Option.bind_some, hopen, Option.map_some,
      entryAt, shown, hrec, Option.getD_some, if_true]

theorem key_entryAt (unsealBlob : Bytes → Option α) (kv : Encoding KvRecord) (rx : Fixed 32)
    (values : Bool) (r : Key × Bytes) : (entryAt unsealBlob kv rx values r).key =
    logicalOf rx r := by
  unfold entryAt shown
  split <;> rfl

theorem nodup_logical (hheld : Held kv disk rx) :
    ((matching pick disk rx pre).map (logicalOf rx)).Nodup := by
  have hkeys : ((matching pick disk rx pre).map Prod.fst).Nodup :=
    (nodup_query (ownerKey rx) pick disk).sublist (List.filter_sublist.map _)
  rw [List.Nodup, List.pairwise_map] at hkeys ⊢
  refine hkeys.imp_of_mem fun {r r'} hr hr' hne heq => hne ?_
  obtain ⟨hlookup, hunder, -⟩ := mem_matching.mp hr
  obtain ⟨hlookup', hunder', -⟩ := mem_matching.mp hr'
  obtain ⟨key, -, -, hk, -, -⟩ := hheld r.1 r.2 hlookup hunder
  obtain ⟨key', -, -, hk', -, -⟩ := hheld r'.1 r'.2 hlookup' hunder'
  have hsame : key = key' := by
    have hlogical : logicalOf rx r = key := by rw [logicalOf, hk, logical_stored]
    have hlogical' : logicalOf rx r' = key' := by rw [logicalOf, hk', logical_stored]
    rw [← hlogical, heq, hlogical']
  rw [hk, hk', hsame]

theorem complete_matching (pick : List Key) (hheld : Held kv disk rx) :
    Complete unsealBlob kv disk (Hex.encode rx.val) pre values
      ((matching pick disk rx pre).map (entryAt unsealBlob kv rx values)) := by
  constructor
  · rw [List.map_map, show StorageEntry.key ∘ entryAt unsealBlob kv rx values = logicalOf rx from
      funext (key_entryAt unsealBlob kv rx values)]
    exact nodup_logical hheld
  · intro e
    rw [List.mem_map]
    constructor
    · rintro ⟨r, hr, rfl⟩
      obtain ⟨hlookup, hunder, hmatch⟩ := mem_matching.mp hr
      obtain ⟨key, rec, hvalid, hk, hvalue, -⟩ := hheld r.1 r.2 hlookup hunder
      have hlogical : logicalOf rx r = key := by rw [logicalOf, hk, logical_stored]
      have hrec : kv.unmarshal r.2 = some rec := by rw [hvalue, kv.unmarshal_marshal]
      refine ⟨key, rec, get_eq_some.mpr ⟨r.2, hk ▸ hlookup, hrec, hvalid⟩, hlogical ▸ hmatch, ?_⟩
      rw [entryAt, hlogical, hrec, Option.getD_some]
    · rintro ⟨key, rec, hget, hmatch, rfl⟩
      obtain ⟨value, hlookup, hrec, -⟩ := get_eq_some.mp hget
      have hlogical : logicalOf rx (ownerKey rx ++ segments key, value) = key := logical_stored
      refine ⟨(ownerKey rx ++ segments key, value), ?_,
        by rw [entryAt, hlogical, hrec, Option.getD_some]⟩
      exact mem_matching.mpr ⟨hlookup, under_append (segments_ne_nil key),
        by rw [hlogical]; exact hmatch⟩

theorem not_complete_take (hheld : Held kv disk rx) {n : ℕ}
    (hlong : n < (matching pick disk rx pre).length) :
    ¬ Complete unsealBlob kv disk (Hex.encode rx.val) pre values
      (((matching pick disk rx pre).take n).map (entryAt unsealBlob kv rx values)) := by
  intro h
  have hmem : (matching pick disk rx pre)[n] ∈ matching pick disk rx pre := List.getElem_mem hlong
  have hentry : entryAt unsealBlob kv rx values (matching pick disk rx pre)[n] ∈
      ((matching pick disk rx pre).take n).map (entryAt unsealBlob kv rx values) :=
    (h.all _).mpr (((complete_matching pick hheld).all _).mp (List.mem_map_of_mem hmem))
  obtain ⟨r, hr, heq⟩ := List.mem_map.mp hentry
  have hkey : logicalOf rx r = logicalOf rx (matching pick disk rx pre)[n] := by
    rw [← key_entryAt unsealBlob kv rx values r, heq, key_entryAt]
  have hnodup : ((matching pick disk rx pre).map (logicalOf rx)).Nodup := nodup_logical hheld
  rw [← List.take_append_drop n (matching pick disk rx pre), List.map_append, List.nodup_append]
    at hnodup
  have hdrop : (matching pick disk rx pre)[n] ∈ (matching pick disk rx pre).drop n := by
    rw [List.drop_eq_getElem_cons hlong]
    exact List.mem_cons_self ..
  exact hnodup.2.2 _ (List.mem_map_of_mem hr) _ (List.mem_map_of_mem hdrop) hkey

theorem listInternal_first (hpre : Namespace pre) (hheld : Held kv disk rx)
    (hopens : Opens unsealBlob kv disk rx) (n : ℕ) :
    listInternal unsealBlob kv pick disk (Hex.encode rx.val) pre values (n + 1) "" [] =
      if (matching pick disk rx pre).length < 50 then
        some (.ok ((matching pick disk rx pre).map (entryAt unsealBlob kv rx values)))
      else
        listInternal unsealBlob kv pick disk (Hex.encode rx.val) pre values n
          ((((matching pick disk rx pre).take 50).getLast?).elim "" fun r => text r.1)
          (((matching pick disk rx pre).take 50).map (entryAt unsealBlob kv rx values)) := by
  have hentries :
      (((matching pick disk rx pre).take 50).map fun r => dataOf (itemOf kv rx values r)).filterMap
      (entryOf unsealBlob values) = ((matching pick disk rx pre).take 50).map
        (entryAt unsealBlob kv rx values) := by
    rw [List.filterMap_map, ← List.filterMap_eq_map]
    apply List.filterMap_congr
    intro r hr
    exact entryOf_item hheld hopens (List.mem_of_mem_take hr)
  rw [listInternal, kvList_first hpre hheld]
  dsimp only
  rw [hentries, List.nil_append]
  by_cases hshort : (matching pick disk rx pre).length < 50
  · rw [if_neg (show ¬ 50 ≤ (matching pick disk rx pre).length by omega), if_pos rfl, if_pos hshort,
      List.take_of_length_le (by omega)]
  · obtain ⟨r, hlast⟩ : ∃ r, ((matching pick disk rx pre).take 50).getLast? = some r := by
      rw [← Option.isSome_iff_exists, List.getLast?_isSome, ← List.length_pos_iff, List.length_take]
      omega
    have hr : r ∈ matching pick disk rx pre := List.mem_of_mem_take (List.mem_of_getLast? hlast)
    have hne : text r.1 ≠ "" := text_ne_empty (ne_nil_of_under (mem_matching.mp hr).2.1)
    rw [if_pos (show 50 ≤ (matching pick disk rx pre).length by omega), hlast, if_neg hshort,
      Option.elim, if_neg hne]

theorem lists_iff_of_held (pick : List Key) (hpre : Namespace pre) (hheld : Held kv disk rx)
    (hopens : Opens unsealBlob kv disk rx) :
    Lists unsealBlob kv pick disk (Hex.encode rx.val) pre values ↔
      (matching pick disk rx pre).length < 50 ∨
        (matching pick disk rx pre).length = 50 ∧
          ∃ r, (matching pick disk rx pre).getLast? = some r ∧
          (Base64.decode (text r.1).toList).isSome = true := by
  by_cases hshort : (matching pick disk rx pre).length < 50
  · refine iff_of_true ⟨1, _, ?_, complete_matching pick hheld⟩ (.inl hshort)
    rw [listInternal_first hpre hheld hopens, if_pos hshort]
  · obtain ⟨r, hlast⟩ : ∃ r, ((matching pick disk rx pre).take 50).getLast? = some r := by
      rw [← Option.isSome_iff_exists, List.getLast?_isSome, ← List.length_pos_iff, List.length_take]
      omega
    have hr : r ∈ matching pick disk rx pre := List.mem_of_mem_take (List.mem_of_getLast? hlast)
    have hunder : under (ownerKey rx) r.1 = true := (mem_matching.mp hr).2.1
    -- the second request ends the listing, with what the first has brought or with an error
    have hrun : ∀ n entries, listInternal unsealBlob kv pick disk (Hex.encode rx.val) pre values n
        "" [] = some (.ok entries) →
        (Base64.decode (text r.1).toList).isSome = true ∧
          entries = ((matching pick disk rx pre).take 50).map
            (entryAt unsealBlob kv rx values) := by
      intro n entries hn
      match n with
      | 0 => cases hn
      | 1 =>
        rw [listInternal_first hpre hheld hopens, if_neg hshort] at hn
        cases hn
      | m + 2 =>
        rw [listInternal_first hpre hheld hopens, if_neg hshort, hlast, Option.elim, listInternal,
          kvList_next hpre hunder] at hn
        split at hn
        · next e he =>
          split at he
          · cases he
          · cases hn
        · next res he =>
          split at he
          · next hsome =>
            cases he
            simp only [List.filterMap_nil, List.append_nil, if_true, Option.some.injEq,
              Except.ok.injEq] at hn
            exact ⟨hsome, hn.symm⟩
          · cases he
    constructor
    · rintro ⟨n, entries, hn, hcomplete⟩
      obtain ⟨hsome, rfl⟩ := hrun n entries hn
      have hfifty : (matching pick disk rx pre).length = 50 := by
        by_contra hne
        exact not_complete_take hheld (show 50 < (matching pick disk rx pre).length by omega)
          hcomplete
      refine .inr ⟨hfifty, r, ?_, hsome⟩
      rwa [List.take_of_length_le (by omega)] at hlast
    · rintro (hlt | ⟨hfifty, r', hlast', hsome⟩)
      · exact absurd hlt hshort
      · rw [List.take_of_length_le (by omega)] at hlast
        obtain rfl : r = r' := Option.some.inj (hlast.symm.trans hlast')
        refine ⟨2, _, ?_, complete_matching pick hheld⟩
        rw [listInternal_first hpre hheld hopens, if_neg hshort, List.take_of_length_le (by omega),
          hlast, Option.elim, listInternal, kvList_next hpre hunder, if_pos hsome]
        simp

end Listing

/-- The listing is complete when it fits a page that is not full, and when it fills one whose last
key is base64. -/
theorem lists_iff {α : Type} (unsealBlob : Bytes → Option α) (kv : Encoding KvRecord)
    (pick : List Key) (disk : Disk) (puts : List Put) (rx : Fixed 32) (pre : String) (values : Bool)
    (hempty : ∀ k, under (ownerKey rx) k = true → disk.lookup k = none) (hpre : Namespace pre)
    (hopens : Opens unsealBlob kv (written kv disk puts) rx) :
    Lists unsealBlob kv pick (written kv disk puts) (Hex.encode rx.val) pre values ↔
      (matching pick (written kv disk puts) rx pre).length < 50 ∨
        (matching pick (written kv disk puts) rx pre).length = 50 ∧
          ∃ r, (matching pick (written kv disk puts) rx pre).getLast? = some r ∧
            (Base64.decode (text r.1).toList).isSome = true :=
  lists_iff_of_held pick hpre (held_written puts (held_of_empty hempty)) hopens

def Ascending (results : List (Key × Bytes)) : Prop :=
  results.Pairwise fun r r' => utf8 (text r.1) ≤ utf8 (text r'.1)

theorem exists_ascending (d : Disk) : ∃ pick, ∀ q, Ascending (query q pick d) := by
  let before : Key → Key → Prop := fun k k' => utf8 (text k) ≤ utf8 (text k')
  have htotal : Std.Total before := ⟨fun k k' => List.le_total ..⟩
  have htrans : IsTrans Key before := ⟨fun _ _ _ => List.le_trans⟩
  have hsorted : (d.keys.insertionSort before).Pairwise before :=
    List.pairwise_insertionSort before d.keys
  refine ⟨d.keys.insertionSort before, fun q => ?_⟩
  have hvisit : Index.visit (d.keys.insertionSort before) d = d.keys.insertionSort before :=
    Index.visit_of_perm (List.perm_insertionSort before d.keys)
  have hunder : ((d.keys.insertionSort before).filter (under q)).Pairwise before := hsorted.filter _
  rw [query, hvisit, Ascending, List.pairwise_filterMap]
  apply hunder.imp
  intro k k' hbefore r hr r' hr'
  obtain ⟨v, -, rfl⟩ := Option.map_eq_some_iff.mp hr
  obtain ⟨v', -, rfl⟩ := Option.map_eq_some_iff.mp hr'
  exact hbefore

namespace Starred

def owner : Fixed 32 := Fixed.zero 32

def flags (n : ℕ) : List Put :=
  (List.range n).map fun i => ⟨owner, "flags/" ++ Hex.encode [UInt8.ofNat i], [1], 0⟩

def disk (n : ℕ) : Disk := written KvRecord.encoding ∅ (flags n)

theorem opens (n : ℕ) : Opens some KvRecord.encoding (disk n) owner := fun _ _ _ => rfl

theorem namespace_flags : Namespace "flags/" := .inr ⟨"flags", rfl, by decide⟩

theorem few_matching {n : ℕ} (hn : n < 50) :
    (matching [] (written KvRecord.encoding ∅ (flags n)) owner "flags/").length < 50 := by
  have hall := length_matching_le [] (written KvRecord.encoding ∅ (flags n)) owner "flags/"
  have hputs : (written KvRecord.encoding ∅ (flags n)).entries.length ≤ 0 + (flags n).length :=
    length_entries_written_le (flags n)
  rw [flags, List.length_map, List.length_range] at hputs
  exact lt_of_le_of_lt hall (by rw [flags]; omega)

/-- Two messages are listed. -/
theorem two_listed :
    (Lists some KvRecord.encoding [] (written KvRecord.encoding ∅ (flags 2)) (Hex.encode owner.val)
      "flags/" true ↔
      (matching [] (written KvRecord.encoding ∅ (flags 2)) owner "flags/").length < 50 ∨
        (matching [] (written KvRecord.encoding ∅ (flags 2)) owner "flags/").length = 50 ∧
          ∃ r, (matching [] (written KvRecord.encoding ∅ (flags 2)) owner "flags/").getLast? =
            some r ∧ (Base64.decode (text r.1).toList).isSome = true) ∧
      (matching [] (written KvRecord.encoding ∅ (flags 2)) owner "flags/").length < 50 :=
  ⟨lists_iff some KvRecord.encoding [] ∅ (flags 2) owner "flags/" true (fun _ _ => rfl)
    namespace_flags (opens 2), few_matching (by decide)⟩

theorem valid_flags : ∀ i ∈ List.range 51, validKvKey
    ("flags/" ++ Hex.encode [UInt8.ofNat i]) = true :=
  List.all_eq_true.mp (by decide)

theorem nodup_flags : ((List.range 51).map fun i =>
  ownerKey owner ++ segments ("flags/" ++ Hex.encode [UInt8.ofNat i])).Nodup := by
  apply List.nodup_range.map_on
  intro i hi j hj h
  have hsegments := List.append_cancel_left h
  have hkeys := congrArg String.toList (segments_injective hsegments)
  rw [String.toList_append, String.toList_append] at hkeys
  have hbytes := Hex.encode_injective (String.toList_inj.mp (List.append_cancel_left hkeys))
  have hnat := congrArg UInt8.toNat (List.cons.inj hbytes).1
  rw [List.mem_range] at hi hj
  rwa [UInt8.toNat_ofNat_of_lt' (show i < 256 by omega),
    UInt8.toNat_ofNat_of_lt' (show j < 256 by omega)] at hnat

theorem lt_matching (pick : List Key) : 50 < (matching pick (disk 51) owner "flags/").length := by
  have hsub : ((List.range 51).map fun i =>
    ownerKey owner ++ segments ("flags/" ++ Hex.encode [UInt8.ofNat i])) ⊆
      (matching pick (disk 51) owner "flags/").map Prod.fst := by
    intro k hk
    obtain ⟨i, hi, rfl⟩ := List.mem_map.mp hk
    have hput : (⟨owner, "flags/" ++ Hex.encode [UInt8.ofNat i], [1], 0⟩ : Put) ∈ flags 51 :=
      List.mem_map.mpr ⟨i, hi, rfl⟩
    have hstored : ((disk 51).lookup
      (ownerKey owner ++ segments ("flags/" ++ Hex.encode [UInt8.ofNat i]))).isSome = true := by
      have hall := stored_of_mem KvRecord.encoding ∅ hput (valid_flags i hi) (by simp) rfl
      exact hall
    obtain ⟨value, hlookup⟩ := Option.isSome_iff_exists.mp hstored
    have hunder : under (ownerKey owner)
        (ownerKey owner ++ segments ("flags/" ++ Hex.encode [UInt8.ofNat i])) = true :=
      under_append (segments_ne_nil _)
    have hlogical : logicalOf owner
        (ownerKey owner ++ segments ("flags/" ++ Hex.encode [UInt8.ofNat i]), value) =
        "flags/" ++ Hex.encode [UInt8.ofNat i] := logical_stored
    have hstarts : Strings.hasPrefix (logicalOf owner
        (ownerKey owner ++ segments ("flags/" ++ Hex.encode [UInt8.ofNat i]), value)) "flags/" =
          true := by
      rw [hlogical, Strings.hasPrefix, List.isPrefixOf_iff_prefix, String.toList_append]
      exact List.prefix_append _ _
    exact fst_mem_matching hlookup hunder hstarts
  have hlength := (nodup_flags.subperm hsub).length_le
  rw [List.length_map, List.length_map, List.length_range] at hlength
  omega

/-- With a message more than a page holds, the listing fails. -/
theorem page_not_continued :
    ¬ ∀ (pick : List Key) (puts : List Put) (rx : Fixed 32) (pre : String) (values : Bool),
      (∀ q, Ascending (query q pick (written KvRecord.encoding ∅ puts))) → Namespace pre →
      Opens some KvRecord.encoding (written KvRecord.encoding ∅ puts) rx →
      Lists some KvRecord.encoding pick (written KvRecord.encoding ∅ puts) (Hex.encode rx.val) pre
      values := by
  intro h
  obtain ⟨pick, hpick⟩ := exists_ascending (disk 51)
  have hheld : Held KvRecord.encoding (disk 51) owner :=
    held_written (flags 51) (held_of_empty fun _ _ => rfl)
  have hlists := h pick (flags 51) owner "flags/" true hpick namespace_flags (opens 51)
  have hlong := lt_matching pick
  rcases (lists_iff_of_held pick namespace_flags hheld (opens 51)).mp hlists with hshort
    | ⟨hfifty, -⟩
  · omega
  · omega

end Starred

end Dmcn.Web.Storage
