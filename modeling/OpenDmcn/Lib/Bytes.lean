import Mathlib.Data.Countable.Basic
import Mathlib.Data.List.Basic
import Mathlib.Data.UInt
import Mathlib.Logic.Equiv.List
import Mathlib.Tactic.DeriveCountable

/-! Byte strings, fixed-size byte arrays and wire codecs. A codec is what a serialisation
library promises: an encoding that decodes back, and the empty string decoding to the message
with every field unset. -/

namespace Go

abbrev Bytes := List UInt8

structure Fixed (n : ℕ) where
  val : Bytes
  length_eq : val.length = n
  deriving DecidableEq

namespace Fixed
variable {n : ℕ}

@[ext] theorem ext {x y : Fixed n} (h : x.val = y.val) : x = y := by
  cases x
  cases y
  simpa using h

def zero (n : ℕ) : Fixed n := ⟨List.replicate n 0, by simp⟩

def copy (n : ℕ) (b : Bytes) : Fixed n :=
  ⟨(b ++ List.replicate n 0).take n, by simp⟩

@[simp] theorem copy_val (x : Fixed n) : copy n x.val = x := by
  ext1
  exact List.take_left' x.length_eq

theorem val_copy_of_length {b : Bytes} (h : b.length = n) : (copy n b).val = b := List.take_left' h

@[simp] theorem length_val (x : Fixed n) : x.val.length = n := x.length_eq

instance decidableMem (x : Fixed n) (xs : List (Fixed n)) : Decidable (x ∈ xs) := inferInstance

end Fixed

def utf8 (s : String) : Bytes := s.toByteArray.data.toList

def ofUtf8 (b : Bytes) : String := (String.fromUTF8? ⟨b.toArray⟩).getD ""

@[simp] theorem ofUtf8_utf8 (s : String) : ofUtf8 (utf8 s) = s := by
  have hbytes : (⟨(utf8 s).toArray⟩ : ByteArray) = s.toByteArray := rfl
  unfold ofUtf8 String.fromUTF8?
  rw [hbytes, dif_pos s.isValidUTF8]
  rfl

def readUtf8 (b : Bytes) : Option String := String.fromUTF8? ⟨b.toArray⟩

@[simp] theorem readUtf8_utf8 (s : String) : readUtf8 (utf8 s) = some s := by
  have hbytes : (⟨(utf8 s).toArray⟩ : ByteArray) = s.toByteArray := rfl
  unfold readUtf8 String.fromUTF8?
  rw [hbytes, dif_pos s.isValidUTF8]
  rfl

theorem utf8_eq (s : String) : utf8 s = s.toList.flatMap String.utf8EncodeChar := by
  unfold utf8
  rw [← String.utf8Encode_toList, List.utf8Encode]
  simp

theorem length_utf8_le (s : String) : (utf8 s).length ≤ 4 * s.toList.length := by
  rw [utf8_eq]
  induction s.toList with
  | nil => exact le_rfl
  | cons c cs ih =>
    have hchar := Char.utf8Size_le_four c
    rw [List.flatMap_cons, List.length_append, List.length_cons, String.length_utf8EncodeChar]
    omega

theorem length_utf8_ascii {s : String} (h : ∀ c ∈ s.toList, c.toNat ≤ 127) :
    (utf8 s).length = s.toList.length := by
  rw [utf8_eq]
  revert h
  induction s.toList with
  | nil => exact fun _ => rfl
  | cons c cs ih =>
    intro h
    have hchar : c.utf8Size = 1 :=
      Char.utf8Size_eq_one_iff.mpr (UInt32.le_iff_toNat_le.mpr (h c (List.mem_cons_self ..)))
    rw [List.flatMap_cons, List.length_append, List.length_cons, String.length_utf8EncodeChar,
      hchar, ih fun d hd => h d (List.mem_cons_of_mem _ hd), Nat.add_comm]

theorem toNat_le_of_isDigit {c : Char} (h : c.isDigit = true) : c.toNat ≤ 127 := by
  unfold Char.isDigit at h
  rw [Bool.and_eq_true, decide_eq_true_iff, decide_eq_true_iff] at h
  have hle := UInt32.le_iff_toNat_le.mp h.2
  have hnine : '9'.val.toNat = 57 := by decide
  rw [hnine] at hle
  exact hle.trans (by decide)

def bigEndian32 (n : ℕ) : Bytes :=
  [UInt8.ofNat (n / 2 ^ 24), UInt8.ofNat (n / 2 ^ 16), UInt8.ofNat (n / 2 ^ 8), UInt8.ofNat n]

def readBigEndian32 (b : Bytes) : ℕ :=
  (b.getD 0 0).toNat * 2 ^ 24 + (b.getD 1 0).toNat * 2 ^ 16 + (b.getD 2 0).toNat * 2 ^ 8 +
    (b.getD 3 0).toNat

@[simp] theorem length_bigEndian32 (n : ℕ) : (bigEndian32 n).length = 4 := rfl

theorem readBigEndian32_append (n : ℕ) (rest : Bytes) :
    readBigEndian32 (bigEndian32 n ++ rest) = n % 2 ^ 32 := by
  simp only [readBigEndian32, bigEndian32, List.cons_append, List.nil_append, List.getD_cons_zero,
    List.getD_cons_succ, UInt8.toNat_ofNat']
  omega

structure Codec (α : Type) [Inhabited α] where
  marshal : α → Bytes
  marshalDeterministic : α → Bytes
  unmarshal : Bytes → Option α
  unmarshal_marshal : ∀ a, unmarshal (marshal a) = some a
  unmarshal_deterministic : ∀ a, unmarshal (marshalDeterministic a) = some a
  unmarshal_nil : unmarshal [] = some default

namespace Codec
variable {α : Type} [Inhabited α] (c : Codec α)

attribute [simp] unmarshal_marshal unmarshal_deterministic

theorem marshalDeterministic_injective : Function.Injective c.marshalDeterministic := by
  intro a b h
  have hab := congrArg c.unmarshal h
  simpa using hab

theorem marshal_ne_nil {a : α} (h : a ≠ default) : c.marshal a ≠ [] := by
  intro hnil
  have ha := c.unmarshal_marshal a
  rw [hnil, c.unmarshal_nil] at ha
  exact h (Option.some.inj ha).symm

theorem exists_of_injective {enc : α → Bytes} (henc : Function.Injective enc)
    (hdefault : enc default = []) :
    ∃ c : Codec α, c.marshal = enc ∧ c.marshalDeterministic = enc := by
  classical
  let dec : Bytes → Option α := fun b => if h : ∃ a, enc a = b then some h.choose else none
  have hdec : ∀ a, dec (enc a) = some a := by
    intro a
    have h : ∃ x, enc x = enc a := ⟨a, rfl⟩
    simp only [dec]
    rw [dif_pos h]
    exact congrArg some (henc h.choose_spec)
  have hnil : dec [] = some default := by
    rw [← hdefault]
    exact hdec default
  exact ⟨⟨enc, enc, dec, hdec, hdec, hnil⟩, rfl, rfl⟩

theorem nonempty (α : Type) [Inhabited α] [Countable α] : Nonempty (Codec α) := by
  classical
  obtain ⟨f, hf⟩ := exists_injective_nat α
  let enc : α → Bytes := fun a => if a = default then [] else List.replicate (f a + 1) 0
  have henc : Function.Injective enc := by
    intro a b hab
    have hlen := congrArg List.length hab
    by_cases ha : a = default <;> by_cases hb : b = default <;>
      simp only [enc, ha, hb, if_true, if_false, List.length_nil, List.length_replicate] at hlen ⊢
    · omega
    · omega
    · exact hf (by omega)
  obtain ⟨c, -⟩ := exists_of_injective henc (if_pos rfl)
  exact ⟨c⟩

theorem exists_short [Countable α] {n : ℕ} (family : Fixed n → α) :
    ∃ c : Codec α, ∀ x, (c.marshalDeterministic (family x)).length ≤ n + 1 := by
  classical
  obtain ⟨f, hf⟩ := exists_injective_nat α
  let enc : α → Bytes := fun a =>
    if a = default then []
    else if h : ∃ x, family x = a then 1 :: h.choose.val
    else List.replicate (f a + 1) 0
  have hdefault : enc default = [] := if_pos rfl
  have henc : Function.Injective enc := by
    intro a b hab
    simp only [enc] at hab
    split at hab
    · next ha =>
      split at hab
      · next hb => rw [ha, hb]
      · split at hab
        · cases hab
        · simp at hab
    · split at hab
      · next h =>
        split at hab
        · cases hab
        · split at hab
          · next h' =>
            rw [List.cons_inj_right] at hab
            rw [← h.choose_spec, ← h'.choose_spec, Fixed.ext hab]
          · simp [List.replicate_succ] at hab
      · split at hab
        · simp at hab
        · split at hab
          · simp [List.replicate_succ] at hab
          · have hlength := congrArg List.length hab
            rw [List.length_replicate, List.length_replicate] at hlength
            exact hf (by omega)
  obtain ⟨c, -, hc⟩ := exists_of_injective henc hdefault
  refine ⟨c, fun x => ?_⟩
  rw [hc]
  simp only [enc]
  split
  · simp
  · rw [dif_pos ⟨x, rfl⟩, List.length_cons, Fixed.length_val]

end Codec

structure Encoding (α : Type) where
  marshal : α → Bytes
  unmarshal : Bytes → Option α
  unmarshal_marshal : ∀ a, unmarshal (marshal a) = some a

attribute [simp] Encoding.unmarshal_marshal

def Codec.toEncoding {α : Type} [Inhabited α] (c : Codec α) : Encoding α :=
  ⟨c.marshal, c.unmarshal, c.unmarshal_marshal⟩

instance countableChar : Countable Char :=
  Function.Injective.countable (f := Char.toNat) fun _ _ h => Char.toNat_inj.mp h
instance countableString : Countable String :=
  Function.Injective.countable (f := String.toList) fun _ _ h => String.toList_inj.mp h
instance countableUInt8 : Countable UInt8 :=
  Function.Injective.countable (f := UInt8.toNat) fun _ _ h => UInt8.toNat_inj.mp h
instance countableUInt32 : Countable UInt32 :=
  Function.Injective.countable (f := UInt32.toNat) fun _ _ h => UInt32.toNat_inj.mp h
instance countableUInt64 : Countable UInt64 :=
  Function.Injective.countable (f := UInt64.toNat) fun _ _ h => UInt64.toNat_inj.mp h
instance countableInt32 : Countable Int32 :=
  Function.Injective.countable (f := Int32.toInt) fun _ _ h => Int32.toInt_inj.mp h
instance countableInt64 : Countable Int64 :=
  Function.Injective.countable (f := Int64.toInt) fun _ _ h => Int64.toInt_inj.mp h

end Go
