import OpenDmcn.Lib.Bytes
import Mathlib.Tactic.NormNum

/-! Sealing (`crypto.go`): the key exchange, the key derivation and the authenticated cipher that
the message layer and the onion layer are built on. What curve25519, HKDF and AES-GCM compute is a
parameter; random bytes are inputs. -/

namespace Dmcn

open Go

structure Primitives where
  /-- `curve25519.X25519`, which refuses a point of low order. -/
  x25519 : Fixed 32 → Fixed 32 → Option (Fixed 32)
  basepoint : Fixed 32
  /-- `hkdf.New` with SHA-256: the secret, the salt, the info and how many bytes are read. -/
  hkdf : Bytes → Bytes → Bytes → ℕ → Bytes
  /-- `Seal` of the key, the nonce, the plaintext and the additional data: the ciphertext and the
  tag after it. -/
  gcmSeal : Bytes → Bytes → Bytes → Bytes → Bytes
  gcmOpen : Bytes → Bytes → Bytes → Bytes → Option Bytes

namespace Crypto

variable (p : Primitives)

def aes256KeySize : ℕ := 32
def aesGCMNonceSize : ℕ := 12
def aesGCMTagSize : ℕ := 16

def x25519PublicFromPrivate (privateKey : Fixed 32) : Option (Fixed 32) :=
  p.x25519 privateKey p.basepoint

def x25519SharedSecret (privateKey peerPublicKey : Fixed 32) : Option (Fixed 32) :=
  p.x25519 privateKey peerPublicKey

def deriveKey (secret salt info : Bytes) (length : ℕ) : Option Bytes :=
  if length = 0 then none else some (p.hkdf secret salt info length)

def aesGCMEncryptAAD (key : Bytes) (nonce : Fixed 12) (plaintext aad : Bytes) :
    Option (Bytes × Bytes) :=
  if key.length ≠ aes256KeySize then none
  else
    let sealed := p.gcmSeal key nonce.val plaintext aad
    some (sealed.take (sealed.length - aesGCMTagSize), sealed.drop (sealed.length - aesGCMTagSize))

def aesGCMDecryptAAD (key nonce ciphertext tag aad : Bytes) : Option Bytes :=
  if key.length ≠ aes256KeySize then none
  else if nonce.length ≠ aesGCMNonceSize then none
  else p.gcmOpen key nonce (ciphertext ++ tag) aad

def aesGCMEncrypt (key : Bytes) (nonce : Fixed 12) (plaintext : Bytes) : Option (Bytes × Bytes) :=
  aesGCMEncryptAAD p key nonce plaintext []

def aesGCMDecrypt (key nonce ciphertext tag : Bytes) : Option Bytes :=
  aesGCMDecryptAAD p key nonce ciphertext tag []

end Crypto

/-- What the sealing relies on to work: both sides of a key exchange come to one secret, a derived
key has the length that was asked for, and what was sealed opens. -/
structure Primitives.Lawful (p : Primitives) : Prop where
  generates : ∀ a, ∃ A, p.x25519 a p.basepoint = some A
  agrees : ∀ a b A B, p.x25519 a p.basepoint = some A → p.x25519 b p.basepoint = some B →
    ∃ s, p.x25519 a B = some s ∧ p.x25519 b A = some s
  length_hkdf : ∀ secret salt info n, (p.hkdf secret salt info n).length = n
  tagged : ∀ key nonce plaintext aad, Crypto.aesGCMTagSize ≤
    (p.gcmSeal key nonce plaintext aad).length
  opens : ∀ key nonce plaintext aad, p.gcmOpen key nonce (p.gcmSeal key nonce plaintext aad) aad =
    some plaintext

/-- What it relies on to be safe, in the ideal: what was sealed opens under its own key, nonce and
additional data only. -/
structure Primitives.Ideal (p : Primitives) : Prop extends p.Lawful where
  only : ∀ key nonce plaintext aad key' nonce' aad', key'.length = key.length →
    nonce'.length = nonce.length →
    (p.gcmOpen key' nonce' (p.gcmSeal key nonce plaintext aad) aad').isSome = true →
      key' = key ∧ nonce' = nonce ∧ aad' = aad

section Sealed

variable {p : Primitives} {key : Bytes} {nonce : Fixed 12} {plaintext aad ciphertext tag : Bytes}

theorem aesGCMEncryptAAD_eq_some
    (h : Crypto.aesGCMEncryptAAD p key nonce plaintext aad = some (ciphertext, tag)) :
    key.length = Crypto.aes256KeySize ∧ ciphertext ++ tag = p.gcmSeal key nonce.val plaintext
      aad := by
  unfold Crypto.aesGCMEncryptAAD at h
  split at h
  · cases h
  · next hlength =>
    cases h
    exact ⟨not_not.mp hlength, List.take_append_drop ..⟩

theorem aesGCMEncryptAAD_isSome (hkey : key.length = Crypto.aes256KeySize) :
    ∃ ciphertext tag, Crypto.aesGCMEncryptAAD p key nonce plaintext aad =
      some (ciphertext, tag) := by
  unfold Crypto.aesGCMEncryptAAD
  rw [if_neg (not_not.mpr hkey)]
  exact ⟨_, _, rfl⟩

theorem length_tag (hp : p.Lawful)
    (h : Crypto.aesGCMEncryptAAD p key nonce plaintext aad = some (ciphertext, tag)) :
    tag.length = Crypto.aesGCMTagSize := by
  have htagged := hp.tagged key nonce.val plaintext aad
  unfold Crypto.aesGCMEncryptAAD at h
  split at h
  · cases h
  · cases h
    rw [List.length_drop]
    omega

theorem decrypt_encrypt (hp : p.Lawful)
    (h : Crypto.aesGCMEncryptAAD p key nonce plaintext aad = some (ciphertext, tag)) :
    Crypto.aesGCMDecryptAAD p key nonce.val ciphertext tag aad = some plaintext := by
  obtain ⟨hkey, hsealed⟩ := aesGCMEncryptAAD_eq_some h
  unfold Crypto.aesGCMDecryptAAD
  rw [if_neg (not_not.mpr hkey), if_neg (by simp [Crypto.aesGCMNonceSize]), hsealed]
  exact hp.opens ..

theorem decrypt_eq_none (hp : p.Ideal)
    (h : Crypto.aesGCMEncryptAAD p key nonce plaintext aad = some (ciphertext, tag))
    {key' nonce' aad' : Bytes} (hother : key' ≠ key ∨ nonce' ≠ nonce.val ∨ aad' ≠ aad) :
    Crypto.aesGCMDecryptAAD p key' nonce' ciphertext tag aad' = none := by
  obtain ⟨hkey, hsealed⟩ := aesGCMEncryptAAD_eq_some h
  unfold Crypto.aesGCMDecryptAAD
  split
  · rfl
  · next hkey' =>
    split
    · rfl
    · next hnonce' =>
      rw [hsealed]
      cases hopen : p.gcmOpen key' nonce' (p.gcmSeal key nonce.val plaintext aad) aad' with
      | none => rfl
      | some plaintext' =>
        have hlength : key'.length = key.length := (not_not.mp hkey').trans hkey.symm
        have hlength' : nonce'.length = nonce.val.length := by
          rw [nonce.length_val]
          exact not_not.mp hnonce'
        obtain ⟨hk, hn, ha⟩ := hp.only key nonce.val plaintext aad key' nonce' aad' hlength hlength'
          (by rw [hopen]; rfl)
        rcases hother with hne | hne | hne
        · exact absurd hk hne
        · exact absurd hn hne
        · exact absurd ha hne

end Sealed

theorem length_zipWith_add (a b : Fixed 32) : (List.zipWith (· + ·) a.val b.val).length = 32 := by
  simp

/-- Primitives that are as ideal as they are simple: keys add up, a derived key is the end of what
it is bound to, and a sealed text shows the key, the nonce and the additional data that it opens
under. -/
noncomputable def plainPrimitives : Primitives where
  x25519 a b := some ⟨List.zipWith (· + ·) a.val b.val, length_zipWith_add a b⟩
  basepoint := .zero 32
  hkdf _ _ info n := (Fixed.copy n (info.drop (info.length - n))).val
  gcmSeal key nonce plaintext aad :=
    key ++ (nonce ++
      (List.replicate aad.length 1 ++ (0 :: (aad ++ (plaintext ++ List.replicate 16 0)))))
  gcmOpen key nonce sealed aad := by
    classical
    exact if h : ∃ plaintext, sealed =
        key ++ (nonce ++
          (List.replicate aad.length 1 ++ (0 :: (aad ++ (plaintext ++ List.replicate 16 0)))))
      then some h.choose else none

theorem marked_inj {aad aad' rest rest' : Bytes}
    (h : List.replicate aad.length (1 : UInt8) ++ (0 :: (aad ++ rest)) =
      List.replicate aad'.length 1 ++ (0 :: (aad' ++ rest'))) : aad = aad' := by
  have hlength : ∀ (m n : ℕ) (l l' : Bytes), List.replicate m (1 : UInt8) ++ 0 :: l =
      List.replicate n 1 ++ 0 :: l' →
      m = n ∧ l = l' := by
    intro m
    induction m with
    | zero =>
      intro n l l' heq
      cases n with
      | zero => exact ⟨rfl, by simpa using heq⟩
      | succ n =>
        rw [List.replicate_succ] at heq
        simp at heq
    | succ m ih =>
      intro n l l' heq
      cases n with
      | zero =>
        rw [List.replicate_succ] at heq
        simp at heq
      | succ n =>
        rw [List.replicate_succ, List.replicate_succ, List.cons_append, List.cons_append,
          List.cons_inj_right] at heq
        obtain ⟨rfl, hrest⟩ := ih n l l' heq
        exact ⟨rfl, hrest⟩
  obtain ⟨hsize, hrest⟩ := hlength _ _ _ _ h
  exact (List.append_inj hrest hsize).1

theorem zipWith_add_zero (l : Bytes) : List.zipWith (· + ·) l (List.replicate l.length 0) = l := by
  induction l with
  | nil => rfl
  | cons b l ih =>
    rw [List.length_cons, List.replicate_succ, List.zipWith_cons_cons, ih, UInt8.add_zero]

theorem public_plain (a : Fixed 32) : Crypto.x25519PublicFromPrivate plainPrimitives a = some
    a := by
  unfold Crypto.x25519PublicFromPrivate plainPrimitives
  dsimp only
  congr 1
  ext1
  dsimp only [Fixed.zero]
  have hzero := zipWith_add_zero a.val
  rwa [a.length_val] at hzero

theorem plainPrimitives_ideal : plainPrimitives.Ideal where
  generates a := ⟨a, public_plain a⟩
  agrees a b A B ha hb := by
    obtain rfl : A = a := Option.some.inj (ha.symm.trans (public_plain a))
    obtain rfl : B = b := Option.some.inj (hb.symm.trans (public_plain b))
    refine ⟨⟨List.zipWith (· + ·) A.val B.val, by simp⟩, rfl, ?_⟩
    unfold plainPrimitives
    dsimp only
    congr 1
    ext1
    exact List.zipWith_comm_of_comm fun x y => UInt8.add_comm x y
  length_hkdf _ _ _ n := Fixed.length_val _
  tagged key nonce plaintext aad := by
    unfold plainPrimitives Crypto.aesGCMTagSize
    simp only [List.length_append, List.length_cons, List.length_replicate]
    omega
  opens key nonce plaintext aad := by
    unfold plainPrimitives
    dsimp only
    have hex : ∃ plaintext',
        key ++ (nonce ++ (List.replicate aad.length (1 : UInt8) ++ (0 :: (aad ++ (plaintext ++
          List.replicate 16 0))))) = key ++
            (nonce ++ (List.replicate aad.length 1 ++ (0 :: (aad ++ (plaintext' ++
          List.replicate 16 0))))) := ⟨plaintext, rfl⟩
    rw [dif_pos hex]
    have hspec := hex.choose_spec
    generalize hex.choose = plaintext' at hspec ⊢
    simp only [List.append_cancel_left_eq, List.cons_inj_right, List.append_cancel_right_eq]
      at hspec
    rw [← hspec]
  only key nonce plaintext aad key' nonce' aad' hkey hnonce hopen := by
    unfold plainPrimitives at hopen
    dsimp only at hopen
    split at hopen
    · next hex =>
      obtain ⟨plaintext', heq⟩ := hex
      obtain ⟨hk, hrest⟩ := List.append_inj heq hkey.symm
      obtain ⟨hn, hrest⟩ := List.append_inj hrest hnonce.symm
      exact ⟨hk.symm, hn.symm, (marked_inj hrest).symm⟩
    · cases hopen

end Dmcn
