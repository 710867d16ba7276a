import OpenDmcn.Lib.Hex
import OpenDmcn.Lib.Index

/-! A datastore: byte strings under keys that are cleaned paths. A query lists what lies under a
prefix, in an order picked outside. -/

namespace Datastore

open Go

abbrev Key := List String

abbrev Disk := AList fun _ : Key => Bytes

def clean (segments : List String) : Key :=
  segments.foldl (fun key segment =>
    if segment = "" ∨ segment = "." then key
    else if segment = ".." then key.dropLast
    else key ++ [segment]) []

def segments (path : String) : List String := (path.toList.splitOn '/').map String.ofList

def newKey (parts : List String) : Key := clean (parts.flatMap segments)

structure Plain (part : String) : Prop where
  ne_empty : part ≠ ""
  ne_dot : part ≠ "."
  ne_dots : part ≠ ".."
  no_slash : '/' ∉ part.toList

instance (part : String) : Decidable (Plain part) :=
  decidable_of_iff (part ≠ "" ∧ part ≠ "." ∧ part ≠ ".." ∧ '/' ∉ part.toList)
    ⟨fun h => ⟨h.1, h.2.1, h.2.2.1, h.2.2.2⟩, fun h => ⟨h.1, h.2, h.3, h.4⟩⟩

theorem segments_of_plain {part : String} (h : Plain part) : segments part = [part] := by
  unfold segments
  rw [List.splitOn, List.splitOnP_eq_singleton]
  · simp
  · intro c hc
    rw [beq_eq_false_iff_ne]
    rintro rfl
    exact h.no_slash hc

theorem newKey_of_plain {parts : List String} (h : ∀ part ∈ parts, Plain part) :
    newKey parts = parts := by
  have hsegments : parts.flatMap segments = parts := by
    induction parts with
    | nil => rfl
    | cons part parts ih =>
      rw [List.flatMap_cons, segments_of_plain (h part (List.mem_cons_self ..)),
        ih fun p hp => h p (List.mem_cons_of_mem _ hp)]
      rfl
  have hclean : ∀ key : Key, parts.foldl (fun key segment =>
      if segment = "" ∨ segment = "." then key
      else if segment = ".." then key.dropLast
      else key ++ [segment]) key = key ++ parts := by
    clear hsegments
    induction parts with
    | nil => simp
    | cons part parts ih =>
      intro key
      have hpart := h part (List.mem_cons_self ..)
      rw [List.foldl_cons, if_neg (by simp [hpart.ne_empty, hpart.ne_dot]), if_neg hpart.ne_dots,
        ih (fun p hp => h p (List.mem_cons_of_mem _ hp)), List.append_assoc]
      rfl
  unfold newKey clean
  rw [hsegments, hclean, List.nil_append]

def text (key : Key) : String :=
  if key = [] then "/" else String.ofList (['/'].intercalate ([] :: key.map String.toList))

theorem segments_text {key : Key} (hkey : key ≠ []) (h : ∀ part ∈ key, Plain part) :
    segments (text key) = "" :: key := by
  unfold segments text
  rw [if_neg hkey, String.toList_ofList, List.splitOn_intercalate]
  · simp
  · intro l hl
    rcases List.mem_cons.mp hl with rfl | hl
    · exact List.not_mem_nil
    · obtain ⟨part, hpart, rfl⟩ := List.mem_map.mp hl
      exact (h part hpart).no_slash
  · exact List.cons_ne_nil _ _

theorem newKey_text {key : Key} (hkey : key ≠ []) (h : ∀ part ∈ key, Plain part) :
    newKey [text key] = key := by
  have hclean : newKey [text key] = newKey key := by
    have hsegments : key.flatMap segments = key := by
      rw [List.flatMap_congr fun part hpart => segments_of_plain (h part hpart),
        List.flatMap_singleton']
    unfold newKey
    rw [List.flatMap_singleton, segments_text hkey h, hsegments]
    rfl
  rw [hclean, newKey_of_plain h]

theorem text_injective {key key' : Key} (hkey : key ≠ []) (hkey' : key' ≠ [])
    (h : ∀ part ∈ key, Plain part) (h' : ∀ part ∈ key', Plain part) (heq : text key = text key') :
    key = key' := by
  rw [← newKey_text hkey h, heq, newKey_text hkey' h']

theorem toList_text {key : Key} (hkey : key ≠ []) :
    (text key).toList = key.flatMap fun part => '/' :: part.toList := by
  have hparts : ∀ (part : String) (rest : Key),
      ['/'].intercalate ([] :: (part :: rest).map String.toList) =
      (part :: rest).flatMap fun part => '/' :: part.toList := by
    intro part rest
    induction rest generalizing part with
    | nil => simp [List.intercalate]
    | cons part' rest ih =>
      have hnext := ih part'
      rw [List.map_cons, List.intercalate_cons_cons] at hnext ⊢
      rw [List.map_cons, List.intercalate_cons_cons, List.flatMap_cons, ← hnext]
      simp
  obtain ⟨part, rest, rfl⟩ := List.exists_cons_of_ne_nil hkey
  rw [text, if_neg hkey, String.toList_ofList, hparts]

theorem slash_notMem_segments {path segment : String} (h : segment ∈ segments path) :
    '/' ∉ segment.toList := by
  have hpieces : ∀ cs : List Char, ∀ l ∈ cs.splitOn '/', '/' ∉ l := by
    intro cs
    induction cs with
    | nil => simp
    | cons c cs ih =>
      rw [List.splitOn_cons_eq_if_modifyHead]
      by_cases hc : c = '/'
      · simpa [hc] using ih
      · obtain ⟨hd, tl, hsplit⟩ := List.exists_cons_of_ne_nil (List.splitOn_ne_nil '/' cs)
        rw [hsplit] at ih ⊢
        rw [if_neg (by simpa using hc), List.modifyHead_cons]
        intro l hl
        rcases List.mem_cons.mp hl with rfl | hl
        · rw [List.mem_cons, not_or]
          exact ⟨fun heq => hc heq.symm, ih hd (List.mem_cons_self ..)⟩
        · exact ih l (List.mem_cons_of_mem _ hl)
  obtain ⟨l, hl, rfl⟩ := List.mem_map.mp h
  rw [String.toList_ofList]
  exact hpieces _ l hl

theorem newKey_text_slash {key : Key} {path : String} (hkey : key ≠ [])
    (h : ∀ part ∈ key, Plain part) (hpath : ∀ segment ∈ segments path, Plain segment) :
    newKey [text key ++ "/" ++ path] = key ++ segments path := by
  have hplain : ∀ part ∈ key ++ segments path, Plain part := by
    intro part hpart
    rcases List.mem_append.mp hpart with hpart | hpart
    · exact h part hpart
    · exact hpath part hpart
  have hsegments : segments (text key ++ "/" ++ path) = "" :: (key ++ segments path) := by
    have hsplit : segments (text key ++ "/" ++ path) = segments (text key) ++ segments path := by
      unfold segments
      rw [String.toList_append, String.toList_append, List.append_assoc, show "/".toList =
        ['/'] from rfl, List.singleton_append, List.splitOn_append_cons_self, List.map_append]
    rw [hsplit, segments_text hkey h]
    rfl
  have hclean : newKey [text key ++ "/" ++ path] = newKey (key ++ segments path) := by
    have hparts : (key ++ segments path).flatMap segments = key ++ segments path := by
      rw [List.flatMap_congr fun part hpart => segments_of_plain (hplain part hpart),
        List.flatMap_singleton']
    unfold newKey
    rw [List.flatMap_singleton, hsegments, hparts]
    rfl
  rw [hclean, newKey_of_plain hplain]

-- comparing two keys by unfolding would run the cleaning
attribute [irreducible] newKey

theorem plain_hex {b : Bytes} (h : 2 ≤ b.length) : Plain (Hex.encode b) := by
  have hlength : (Hex.encode b).toList.length = 2 * b.length := by
    unfold Hex.encode
    rw [String.toList_ofList, Hex.length_encodeChars]
  refine ⟨?_, ?_, ?_, ?_⟩
  · intro heq
    rw [heq] at hlength
    change 0 = _ at hlength
    omega
  · intro heq
    rw [heq] at hlength
    change 1 = _ at hlength
    omega
  · intro heq
    rw [heq] at hlength
    change 2 = _ at hlength
    omega
  · unfold Hex.encode
    rw [String.toList_ofList]
    exact Hex.slash_not_mem_encodeChars b

theorem plain_hash (hash : Fixed 32) : Plain (Hex.encode hash.val) :=
  plain_hex (by rw [hash.length_val]; decide)

theorem newKey_prefix {pre : Key} {parts : List String} (hpre : ∀ part ∈ pre, Plain part)
    (hparts : ∀ part ∈ parts, Plain part) : newKey (pre ++ parts) = pre ++ parts := by
  apply newKey_of_plain
  intro part hpart
  rcases List.mem_append.mp hpart with h | h
  · exact hpre part h
  · exact hparts part h

def under (pre key : Key) : Bool := pre.isPrefixOf key && decide (pre.length < key.length)

theorem under_append {pre rest : Key} (h : rest ≠ []) : under pre (pre ++ rest) = true := by
  unfold under
  rw [Bool.and_eq_true, List.isPrefixOf_iff_prefix, decide_eq_true_iff, List.length_append]
  exact ⟨List.prefix_append _ _, by have := List.length_pos_of_ne_nil h; omega⟩

def put (d : Disk) (key : Key) (value : Bytes) : Disk := d.insert key value

def putAll (d : Disk) (ws : List (Key × Bytes)) : Disk := ws.foldl (fun d w => put d w.1 w.2) d

def deleteAll (d : Disk) (keys : List Key) : Disk := keys.foldl (fun d key => d.erase key) d

def query (pre : Key) (pick : List Key) (d : Disk) : List (Key × Bytes) :=
  ((Index.visit pick d).filter (under pre)).filterMap fun key => (d.lookup key).map fun v =>
    (key, v)

theorem lookup_put (d : Disk) (key key' : Key) (value : Bytes) :
    (put d key value).lookup key' = if key' = key then some value else d.lookup key' := by
  unfold put
  split
  · next h =>
    subst h
    exact AList.lookup_insert d
  · next h => exact AList.lookup_insert_ne h

theorem lookup_putAll_of_notMem {d : Disk} {ws : List (Key × Bytes)} {key : Key}
    (h : key ∉ ws.map Prod.fst) :
    (putAll d ws).lookup key = d.lookup key := by
  induction ws generalizing d with
  | nil => rfl
  | cons w ws ih =>
    rw [List.map_cons, List.mem_cons, not_or] at h
    change (putAll (put d w.1 w.2) ws).lookup key = _
    rw [ih h.2, lookup_put, if_neg h.1]

theorem lookup_putAll_of_mem {d : Disk} {ws : List (Key × Bytes)} (hnodup : (ws.map Prod.fst).Nodup)
    {w : Key × Bytes} (hw : w ∈ ws) : (putAll d ws).lookup w.1 = some w.2 := by
  induction ws generalizing d with
  | nil => cases hw
  | cons w' ws ih =>
    rw [List.map_cons, List.nodup_cons] at hnodup
    change (putAll (put d w'.1 w'.2) ws).lookup w.1 = _
    rcases List.mem_cons.mp hw with rfl | hw
    · rw [lookup_putAll_of_notMem hnodup.1, lookup_put, if_pos rfl]
    · exact ih hnodup.2 hw

theorem lookup_deleteAll (d : Disk) (keys : List Key) (key : Key) :
    (deleteAll d keys).lookup key = if key ∈ keys then none else d.lookup key := by
  induction keys generalizing d with
  | nil => rfl
  | cons k keys ih =>
    change (deleteAll (d.erase k) keys).lookup key = _
    rw [ih]
    by_cases hmem : key ∈ keys
    · rw [if_pos hmem, if_pos (List.mem_cons_of_mem _ hmem)]
    · rw [if_neg hmem]
      by_cases hk : key = k
      · rw [hk, AList.lookup_erase, if_pos (List.mem_cons_self ..)]
      · rw [AList.lookup_erase_ne hk, if_neg (by simp [hk, hmem])]

theorem mem_query {pre : Key} {pick : List Key} {d : Disk} {key : Key} {value : Bytes} :
    (key, value) ∈ query pre pick d ↔ d.lookup key = some value ∧ under pre key = true := by
  unfold query
  simp only [List.mem_filterMap, List.mem_filter, Option.map_eq_some_iff, Prod.mk.injEq]
  constructor
  · rintro ⟨k, ⟨-, hunder⟩, v, hlookup, rfl, rfl⟩
    exact ⟨hlookup, hunder⟩
  · rintro ⟨hlookup, hunder⟩
    refine ⟨key, ⟨?_, hunder⟩, value, hlookup, rfl, rfl⟩
    rw [(Index.perm_visit pick d).mem_iff, ← AList.mem_keys, ← AList.lookup_isSome, hlookup]
    rfl

theorem nodup_query (pre : Key) (pick : List Key) (d : Disk) :
    ((query pre pick d).map Prod.fst).Nodup := by
  have hvisit : (Index.visit pick d).Nodup := (Index.perm_visit pick d).nodup_iff.mpr d.keys_nodup
  have hkeys : ∀ keys : List Key, keys.Nodup →
      ((keys.filterMap fun key => (d.lookup key).map fun v => (key, v)).map Prod.fst).Nodup := by
    intro keys hnodup
    refine hnodup.sublist ?_
    rw [List.map_filterMap]
    have hsome : (fun key => ((d.lookup key).map fun v => (key, v)).map Prod.fst) =
        Option.guard fun key => (d.lookup key).isSome := by
      funext key
      cases hlookup : d.lookup key with
      | none => simp [Option.guard, hlookup]
      | some v => simp [Option.guard, hlookup]
    rw [hsome, List.filterMap_eq_filter]
    exact List.filter_sublist
  exact hkeys _ (hvisit.filter _)

theorem perm_query {pre : Key} (pick : List Key) {d : Disk} {l : List (Key × Bytes)}
    (hnodup : (l.map Prod.fst).Nodup)
    (hmem : ∀ key value, (key, value) ∈ l ↔ d.lookup key = some value ∧ under pre key = true) :
    (query pre pick d).Perm l := by
  refine (List.perm_ext_iff_of_nodup ((nodup_query pre pick d).of_map _) (hnodup.of_map _)).mpr ?_
  rintro ⟨key, value⟩
  rw [mem_query, hmem]

theorem perm_query_of_agree {pre : Key} (pick pick' : List Key) {d d' : Disk}
    (h : ∀ key, under pre key = true → d'.lookup key = d.lookup key) :
    (query pre pick d').Perm (query pre pick' d) := by
  refine perm_query pick (nodup_query _ _ _) fun key value => ?_
  rw [mem_query]
  constructor
  · rintro ⟨hlookup, hunder⟩
    exact ⟨(h key hunder).trans hlookup, hunder⟩
  · rintro ⟨hlookup, hunder⟩
    exact ⟨(h key hunder).symm.trans hlookup, hunder⟩

theorem perm_query_cons {pre : Key} (pick pick' : List Key) {d d' : Disk} {k : Key} {value : Bytes}
    (hk : under pre k = true) (hvalue : d'.lookup k = some value)
    (hother : ∀ key, key ≠ k → under pre key = true → d'.lookup key = d.lookup key) :
    (query pre pick d').Perm
      ((k, value) :: (query pre pick' d).filter fun r => decide (r.1 ≠ k)) := by
  apply perm_query
  · rw [List.map_cons, List.nodup_cons]
    refine ⟨?_, (nodup_query _ _ _).sublist (List.filter_sublist.map _)⟩
    intro hmem
    obtain ⟨r, hr, heq⟩ := List.mem_map.mp hmem
    exact of_decide_eq_true (List.mem_filter.mp hr).2 heq
  · intro key value'
    rw [List.mem_cons, List.mem_filter, mem_query, Prod.mk.injEq]
    by_cases hkey : key = k
    · subst hkey
      simp [hk, hvalue, eq_comm]
    · simp only [hkey, false_and, false_or, ne_eq, not_false_eq_true, decide_true, and_true]
      refine and_congr_left fun hunder => ?_
      rw [hother key hkey hunder]

end Datastore
