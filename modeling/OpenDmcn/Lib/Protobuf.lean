import OpenDmcn.Lib.Bytes
import Mathlib.Algebra.BigOperators.Group.List.Basic

/-! The protobuf wire format: a message is a sequence of fields, each a number with an integer or
with a byte string. A field that is unset is left out, and a message within a message is a byte
string. -/

namespace Protobuf

open Go

def varint (n : ℕ) : Bytes :=
  if n < 128 then [UInt8.ofNat n] else UInt8.ofNat (n % 128 + 128) :: varint (n / 128)
termination_by n
decreasing_by omega

def readVarint : Bytes → Option (ℕ × Bytes)
  | [] => none
  | b :: bs =>
    if b.toNat < 128 then some (b.toNat, bs)
    else (readVarint bs).map fun r => (b.toNat - 128 + 128 * r.1, r.2)

inductive Value where
  | int (n : ℕ)
  | bytes (b : Bytes)
  deriving DecidableEq

structure Field where
  num : ℕ
  value : Value
  deriving DecidableEq

def Field.encode : Field → Bytes
  | ⟨num, .int n⟩ => varint (8 * num) ++ varint n
  | ⟨num, .bytes b⟩ => varint (8 * num + 2) ++ (varint b.length ++ b)

def encode (fs : List Field) : Bytes := fs.flatMap Field.encode

def readField (bs : Bytes) : Option (Field × Bytes) := do
  let (tag, bs) ← readVarint bs
  if tag % 8 = 0 then
    let (n, bs) ← readVarint bs
    return (⟨tag / 8, .int n⟩, bs)
  else if tag % 8 = 2 then
    let (n, bs) ← readVarint bs
    if bs.length < n then none
    else return (⟨tag / 8, .bytes (bs.take n)⟩, bs.drop n)
  else none

def decodeWithin : ℕ → Bytes → Option (List Field)
  | _, [] => some []
  | 0, _ :: _ => none
  | k + 1, b :: bs => do
    let (f, rest) ← readField (b :: bs)
    let fs ← decodeWithin k rest
    return f :: fs

def decode (bs : Bytes) : Option (List Field) := decodeWithin bs.length bs

section RoundTrip

theorem toNat_ofNat {n : ℕ} (h : n < 256) : (UInt8.ofNat n).toNat = n := by
  rw [UInt8.toNat_ofNat', Nat.mod_eq_of_lt h]

theorem readVarint_varint (n : ℕ) (rest : Bytes) : readVarint (varint n ++ rest) = some
    (n, rest) := by
  induction n using Nat.strongRecOn with
  | ind n ih =>
    rw [varint]
    by_cases hn : n < 128
    · rw [if_pos hn, List.cons_append, readVarint, toNat_ofNat (by omega), if_pos hn]
      rfl
    · have hbyte := toNat_ofNat (show n % 128 + 128 < 256 by omega)
      rw [if_neg hn, List.cons_append, readVarint, hbyte, if_neg (by omega),
        ih (n / 128) (by omega)]
      simp only [Option.map_some, Option.some.injEq, Prod.mk.injEq, and_true]
      omega

theorem varint_ne_nil (n : ℕ) : varint n ≠ [] := by
  rw [varint]
  split
  · exact List.cons_ne_nil _ _
  · exact List.cons_ne_nil _ _

theorem readField_encode (f : Field) (rest : Bytes) : readField (f.encode ++ rest) = some
    (f, rest) := by
  obtain ⟨num, value⟩ := f
  unfold readField
  cases value with
  | int n =>
    rw [Field.encode, List.append_assoc, readVarint_varint]
    simp only [Option.bind_eq_bind, Option.bind_some, Nat.mul_mod_right, if_true, readVarint_varint]
    rw [Nat.mul_div_cancel_left num (by decide)]
    rfl
  | bytes b =>
    have hkind : (8 * num + 2) % 8 = 2 := by omega
    have hnum : (8 * num + 2) / 8 = num := by omega
    rw [Field.encode, List.append_assoc, readVarint_varint]
    simp only [Option.bind_eq_bind, Option.bind_some, hkind, List.append_assoc, readVarint_varint,
      hnum]
    simp

theorem encode_ne_nil (f : Field) : f.encode ≠ [] := by
  obtain ⟨num, value⟩ := f
  cases value with
  | int n => exact List.append_ne_nil_of_left_ne_nil (varint_ne_nil _) _
  | bytes b => exact List.append_ne_nil_of_left_ne_nil (varint_ne_nil _) _

theorem decodeWithin_encode (fs : List Field) {k : ℕ} (hk : (encode fs).length ≤ k) :
    decodeWithin k (encode fs) = some fs := by
  induction fs generalizing k with
  | nil => cases k <;> rfl
  | cons f fs ih =>
    have hsplit : encode (f :: fs) = f.encode ++ encode fs := rfl
    have hpos := List.length_pos_of_ne_nil (encode_ne_nil f)
    rw [hsplit, List.length_append] at hk
    obtain ⟨k, rfl⟩ := Nat.exists_eq_add_of_lt (show 0 < k by omega)
    obtain ⟨b, bs, hbytes⟩ := List.exists_cons_of_ne_nil (encode_ne_nil f)
    rw [hsplit, Nat.zero_add, show f.encode ++ encode fs = b :: (bs ++ encode fs) by
      rw [hbytes]; rfl, decodeWithin, show b :: (bs ++ encode fs) = f.encode ++ encode fs by
        rw [hbytes]; rfl, readField_encode]
    simp only [Option.bind_eq_bind, Option.bind_some]
    rw [ih (by omega)]
    rfl

@[simp] theorem decode_encode (fs : List Field) : decode (encode fs) = some fs :=
  decodeWithin_encode fs le_rfl

end RoundTrip

def int (num n : ℕ) : List Field := if n = 0 then [] else [⟨num, .int n⟩]

def bytes (num : ℕ) (b : Bytes) : List Field := if b = [] then [] else [⟨num, .bytes b⟩]

def message (num : ℕ) (b : Bytes) : List Field := [⟨num, .bytes b⟩]

def repeated (num : ℕ) (bs : List Bytes) : List Field := bs.map fun b => ⟨num, .bytes b⟩

def Field.asInt (num : ℕ) : Field → Option ℕ
  | ⟨k, .int n⟩ => if k = num then some n else none
  | ⟨_, .bytes _⟩ => none

def Field.asBytes (num : ℕ) : Field → Option Bytes
  | ⟨_, .int _⟩ => none
  | ⟨k, .bytes b⟩ => if k = num then some b else none

def getInt (num : ℕ) (fs : List Field) : ℕ := (fs.filterMap (Field.asInt num)).getLast?.getD 0

def getBytes (num : ℕ) (fs : List Field) : Bytes :=
  (fs.filterMap (Field.asBytes num)).getLast?.getD []

def getRepeated (num : ℕ) (fs : List Field) : List Bytes := fs.filterMap (Field.asBytes num)

section Read

theorem asInt_int (num k n : ℕ) :
    (int k n).filterMap (Field.asInt num) = if k = num ∧ n ≠ 0 then [n] else [] := by
  unfold int
  by_cases hn : n = 0
  · simp [hn]
  · by_cases hk : k = num
    · simp [hn, hk, Field.asInt]
    · simp [hn, hk, Field.asInt]

theorem asInt_bytes (num k : ℕ) (b : Bytes) : (bytes k b).filterMap (Field.asInt num) = [] := by
  unfold bytes
  split
  · rfl
  · rfl

theorem asInt_repeated (num k : ℕ) (bs : List Bytes) : (repeated k bs).filterMap
    (Field.asInt num) = [] := by
  unfold repeated
  rw [List.filterMap_map]
  exact List.filterMap_eq_nil_iff.mpr fun b _ => rfl

theorem asBytes_int (num k n : ℕ) : (int k n).filterMap (Field.asBytes num) = [] := by
  unfold int
  split
  · rfl
  · rfl

theorem asBytes_bytes (num k : ℕ) (b : Bytes) :
    (bytes k b).filterMap (Field.asBytes num) = if k = num ∧ b ≠ [] then [b] else [] := by
  unfold bytes
  by_cases hb : b = []
  · simp [hb]
  · by_cases hk : k = num
    · simp [hb, hk, Field.asBytes]
    · simp [hb, hk, Field.asBytes]

theorem asBytes_repeated (num k : ℕ) (bs : List Bytes) :
    (repeated k bs).filterMap (Field.asBytes num) = if k = num then bs else [] := by
  unfold repeated
  rw [List.filterMap_map]
  by_cases hk : k = num
  · rw [if_pos hk]
    refine Eq.trans (List.filterMap_congr fun b _ => ?_) (List.filterMap_some)
    simp [Field.asBytes, hk]
  · rw [if_neg hk]
    refine List.filterMap_eq_nil_iff.mpr fun b _ => ?_
    simp [Field.asBytes, hk]

theorem getD_ite_int (n : ℕ) : (if n = 0 then ([] : List ℕ) else [n]).getLast?.getD 0 = n := by
  split
  · next h => exact h.symm
  · rfl

theorem getD_ite_bytes (b : Bytes) : (if b = [] then ([] : List Bytes) else [b]).getLast?.getD
    [] = b := by
  split
  · next h => exact h.symm
  · rfl

end Read

@[simp] theorem bytes_nil (num : ℕ) : bytes num [] = [] := rfl

@[simp] theorem int_zero (num : ℕ) : int num 0 = [] := rfl

section Size

theorem length_encode_append (fs gs : List Field) :
    (encode (fs ++ gs)).length = (encode fs).length + (encode gs).length := by
  unfold encode
  rw [List.flatMap_append, List.length_append]

theorem length_varint_le {n k : ℕ} (h : n < 128 ^ (k + 1)) : (varint n).length ≤ k + 1 := by
  induction k generalizing n with
  | zero => rw [varint, if_pos (by simpa using h), List.length_singleton]
  | succ k ih =>
    rw [varint]
    split
    · rw [List.length_singleton]
      omega
    · have hnext : n / 128 < 128 ^ (k + 1) := by
        rw [Nat.div_lt_iff_lt_mul (by decide), ← pow_succ]
        exact h
      rw [List.length_cons]
      exact Nat.succ_le_succ (ih hnext)

theorem lt_length_varint {n k : ℕ} (h : 128 ^ k ≤ n) : k < (varint n).length := by
  induction k generalizing n with
  | zero => exact List.length_pos_of_ne_nil (varint_ne_nil n)
  | succ k ih =>
    have hbig : ¬ n < 128 := by
      have := Nat.one_le_pow k 128 (by decide)
      rw [pow_succ] at h
      omega
    rw [varint, if_neg hbig, List.length_cons]
    refine Nat.succ_lt_succ (ih ?_)
    rw [Nat.le_div_iff_mul_le (by decide), ← pow_succ]
    exact h

theorem length_varint_eq {n k : ℕ} (hlow : 128 ^ k ≤ n) (hhigh : n < 128 ^ (k + 1)) :
    (varint n).length = k + 1 :=
  Nat.le_antisymm (length_varint_le hhigh) (lt_length_varint hlow)

def framed (num : ℕ) (b : Bytes) : ℕ :=
  (varint (8 * num + 2)).length + ((varint b.length).length + b.length)

theorem length_encode_message (num : ℕ) (b : Bytes) :
    (encode (message num b)).length = framed num b := by
  simp [message, encode, Field.encode, framed]

theorem length_encode_bytes (num : ℕ) (b : Bytes) :
    (encode (bytes num b)).length = if b = [] then 0 else framed num b := by
  unfold bytes
  split
  · rfl
  · exact length_encode_message num b

theorem length_encode_int (num n : ℕ) :
    (encode (int num n)).length = if n = 0 then 0 else (varint (8 * num)).length +
      (varint n).length := by
  unfold int
  split
  · rfl
  · simp [encode, Field.encode]

theorem length_encode_repeated (num : ℕ) (bs : List Bytes) :
    (encode (repeated num bs)).length = (bs.map (framed num)).sum := by
  induction bs with
  | nil => rfl
  | cons b bs ih =>
    have hsplit : repeated num (b :: bs) = message num b ++ repeated num bs := rfl
    rw [hsplit, length_encode_append, length_encode_message, ih]
    rfl

theorem length_varint_mono {m n : ℕ} (h : m ≤ n) : (varint m).length ≤ (varint n).length := by
  induction n using Nat.strongRecOn generalizing m with
  | ind n ih =>
    by_cases hm : m < 128
    · rw [varint, if_pos hm]
      exact List.length_pos_of_ne_nil (varint_ne_nil n)
    · have hnext := ih (n / 128) (by omega) (Nat.div_le_div_right h)
      rw [varint.eq_def m, varint.eq_def n, if_neg hm, if_neg (by omega), List.length_cons,
        List.length_cons]
      exact Nat.succ_le_succ hnext

theorem framed_small {num : ℕ} (hnum : num < 16) {b : Bytes} (hb : b.length < 128) :
    framed num b = b.length + 2 := by
  have htag : (varint (8 * num + 2)).length ≤ 1 := length_varint_le (by omega)
  have htag' := List.length_pos_of_ne_nil (varint_ne_nil (8 * num + 2))
  have hlength : (varint b.length).length ≤ 1 := length_varint_le (by omega)
  have hlength' := List.length_pos_of_ne_nil (varint_ne_nil b.length)
  unfold framed
  omega

theorem length_bytes_fixed {num n : ℕ} (hnum : num < 16) (x : Fixed n) (hpos : 0 < n)
    (hn : n < 128) :
    (encode (bytes num x.val)).length = n + 2 := by
  have hne : x.val ≠ [] := by
    intro heq
    have hlength := x.length_val
    rw [heq] at hlength
    exact hpos.ne hlength
  rw [length_encode_bytes, if_neg hne, framed_small hnum (by rw [x.length_val]; exact hn),
    x.length_val]

theorem length_le_framed (num : ℕ) (b : Bytes) : b.length ≤ framed num b := by
  unfold framed
  omega

theorem framed_mono {num : ℕ} {b b' : Bytes} (h : b.length ≤ b'.length) :
    framed num b ≤ framed num b' := by
  have hlength := length_varint_mono h
  unfold framed
  omega

section Tags

variable {num num' : ℕ}

theorem length_tag_le (hnum : num < 16) (n : ℕ) {wire : ℕ} (hwire : wire < 8) :
    (varint (8 * num + wire)).length ≤ (varint n).length := by
  have hone : (varint (8 * num + wire)).length ≤ 1 := length_varint_le (by omega)
  exact hone.trans (List.length_pos_of_ne_nil (varint_ne_nil n))

theorem length_int_le (h : (varint (8 * num)).length ≤ (varint (8 * num')).length) (n : ℕ) :
    (encode (int num n)).length ≤ (encode (int num' n)).length := by
  rw [length_encode_int, length_encode_int]
  split
  · exact le_rfl
  · exact Nat.add_le_add_right h _

theorem framed_le_framed (h : (varint (8 * num + 2)).length ≤ (varint (8 * num' + 2)).length)
    (b : Bytes) :
    framed num b ≤ framed num' b := Nat.add_le_add_right h _

theorem length_bytes_le (h : (varint (8 * num + 2)).length ≤ (varint (8 * num' + 2)).length)
    (b : Bytes) :
    (encode (bytes num b)).length ≤ (encode (bytes num' b)).length := by
  rw [length_encode_bytes, length_encode_bytes]
  split
  · exact le_rfl
  · exact framed_le_framed h b

theorem length_repeated_le (h : (varint (8 * num + 2)).length ≤ (varint (8 * num' + 2)).length)
    (bs : List Bytes) :
    (encode (repeated num bs)).length ≤ (encode (repeated num' bs)).length := by
  rw [length_encode_repeated, length_encode_repeated]
  induction bs with
  | nil => exact le_rfl
  | cons b bs ih =>
    rw [List.map_cons, List.map_cons, List.sum_cons, List.sum_cons]
    exact Nat.add_le_add (framed_le_framed h b) ih

theorem length_le_bytes (num : ℕ) (b : Bytes) : b.length ≤ (encode (bytes num b)).length := by
  rw [length_encode_bytes]
  split
  · next h => simp [h]
  · exact length_le_framed num b

end Tags

end Size

end Protobuf
