import SmartSfp.Crypto.Provider
import SmartSfp.Lib.Aead

/-!
# Gcm — what the providers use of an AES-GCM crate

Both providers rest on a third-party implementation of AES-GCM (`ring`, `aes-gcm`).  Its interface
only takes keys of the right length and 12-byte nonces, works in place, and returns a 16-byte tag;
`Gcm.Crate` is any implementation with these properties.  What it computes, and what it leaves in
the buffer when it refuses, stays open.
-/

namespace SmartSfp

open Lib

namespace Gcm

/-- `AES_128_GCM` and `AES_256_GCM`. -/
inductive Variant where
  | aes128
  | aes256
  deriving DecidableEq, Repr

def Variant.keyLen : Variant → Nat
  | aes128 => 16
  | aes256 => 32

/-- A key bound to its algorithm: `LessSafeKey`, or an `aes-gcm` cipher. -/
structure Key where
  variant : Variant
  material : Octets
  length_eq : material.length = variant.keyLen
  deriving DecidableEq

/-- `UnboundKey::new` and `new_from_slice` reject material of the wrong length, and nothing else. -/
def Key.new (variant : Variant) (material : Octets) : Option Key :=
  if h : material.length = variant.keyLen then some ⟨variant, material, h⟩ else none

/-- A `[u8; 12]`. -/
structure Nonce where
  bytes : Octets
  length_eq : bytes.length = 12
  deriving DecidableEq

/-- `nonce.try_into()`. -/
def Nonce.ofSlice (bytes : Octets) : Option Nonce :=
  if h : bytes.length = 12 then some ⟨bytes, h⟩ else none

theorem Key.new_eq_some {variant : Variant} {material : Octets}
    (h : material.length = variant.keyLen) :
    Key.new variant material = some ⟨variant, material, h⟩ := by
  rw [Key.new, dif_pos h]

theorem Nonce.ofSlice_eq_some {bytes : Octets} (h : bytes.length = 12) :
    Nonce.ofSlice bytes = some ⟨bytes, h⟩ := by
  rw [Nonce.ofSlice, dif_pos h]

theorem Key.material_of_new {variant : Variant} {material : Octets} {k : Key}
    (h : Key.new variant material = some k) : k.material = material := by
  unfold Key.new at h
  split at h <;> cases h
  rfl

theorem Nonce.bytes_of_ofSlice {bytes : Octets} {n : Nonce} (h : Nonce.ofSlice bytes = some n) :
    n.bytes = bytes := by
  unfold Nonce.ofSlice at h
  split at h <;> cases h
  rfl

/-- An implementation of AES-GCM.  Sealing and opening are partial functions on ciphertext and
detached tag; the residues are what a refused call leaves in the buffer it works on. -/
structure Crate where
  sealDetached : Key → Nonce → (aad plaintext : Octets) → Option (Octets × Octets)
  sealResidue : Key → Nonce → (aad plaintext : Octets) → Octets
  openDetached : Key → Nonce → (aad ciphertext tag : Octets) → Option Octets
  openResidue : Key → Nonce → (aad ciphertext tag : Octets) → Octets
  sealDetached_length : ∀ {k n a p c t}, sealDetached k n a p = some (c, t) →
    c.length = p.length ∧ t.length = 16
  sealResidue_length : ∀ k n a p, (sealResidue k n a p).length = p.length
  openDetached_length : ∀ {k n a c t p}, openDetached k n a c t = some p → p.length = c.length
  openResidue_length : ∀ k n a c t, (openResidue k n a c t).length = c.length

namespace Crate

variable (crate : Crate)

/-- The partial functions a crate computes, as an AEAD. -/
def aead : Aead Key Nonce Octets Octets (Octets × Octets) where
  Seals k n a p c := crate.sealDetached k n a p = some c
  Opens k n a c p := crate.openDetached k n a c.1 c.2 = some p

/-- Two crates compute the same partial functions. -/
def Agrees (other : Crate) : Prop :=
  crate.sealDetached = other.sealDetached ∧ crate.openDetached = other.openDetached

theorem Agrees.aead_eq {crate other : Crate} (h : crate.Agrees other) :
    crate.aead = other.aead := by
  unfold aead
  rw [h.1, h.2]

/-- `seal_in_place_separate_tag` and `encrypt_in_place_detached`: the buffer holds the plaintext and
then the ciphertext; the tag is returned. -/
def sealInPlace (key : Key) (nonce : Nonce) (aad : Octets) : Exec Octets Unit Octets := ⟨fun buf =>
  match crate.sealDetached key nonce aad buf with
  | some (ciphertext, tag) => .ok tag ciphertext
  | none => .err () (crate.sealResidue key nonce aad buf)⟩

/-- `decrypt_in_place_detached`: the buffer holds the ciphertext and then the plaintext. -/
def openInPlaceDetached (key : Key) (nonce : Nonce) (aad tag : Octets) : Exec Octets Unit Unit :=
  ⟨fun buf =>
    match crate.openDetached key nonce aad buf tag with
    | some plaintext => .ok () plaintext
    | none => .err () (crate.openResidue key nonce aad buf tag)⟩

/-- `open_in_place`: the buffer holds ciphertext and tag; the plaintext is a slice at its front. -/
def openInPlace (key : Key) (nonce : Nonce) (aad : Octets) : Exec Octets Unit Octets := ⟨fun buf =>
  if buf.length < 16 then .err () buf
  else
    let ciphertext := buf.take (buf.length - 16)
    let tag := buf.drop (buf.length - 16)
    match crate.openDetached key nonce aad ciphertext tag with
    | some plaintext => .ok plaintext (plaintext ++ tag)
    | none => .err () (crate.openResidue key nonce aad ciphertext tag ++ tag)⟩

theorem keeps_sealInPlace (key : Key) (nonce : Nonce) (aad : Octets) :
    (crate.sealInPlace key nonce aad).Keeps := by
  intro buf
  simp only [sealInPlace]
  split
  · rename_i h
    exact (crate.sealDetached_length h).1
  · exact crate.sealResidue_length _ _ _ _

theorem keeps_openInPlaceDetached (key : Key) (nonce : Nonce) (aad tag : Octets) :
    (crate.openInPlaceDetached key nonce aad tag).Keeps := by
  intro buf
  simp only [openInPlaceDetached]
  split
  · rename_i h
    exact crate.openDetached_length h
  · exact crate.openResidue_length _ _ _ _ _

theorem run_sealInPlace_some {key : Key} {nonce : Nonce} {aad buf ciphertext tag : Octets}
    (h : crate.sealDetached key nonce aad buf = some (ciphertext, tag)) :
    (crate.sealInPlace key nonce aad).run buf = .ok tag ciphertext := by
  simp only [sealInPlace, h]

theorem run_sealInPlace_none {key : Key} {nonce : Nonce} {aad buf : Octets}
    (h : crate.sealDetached key nonce aad buf = none) :
    (crate.sealInPlace key nonce aad).run buf =
      .err () (crate.sealResidue key nonce aad buf) := by
  simp only [sealInPlace, h]

theorem run_openInPlace_append (key : Key) (nonce : Nonce) (aad ciphertext : Octets)
    {tag : Octets} (htag : tag.length = 16) :
    (crate.openInPlace key nonce aad).run (ciphertext ++ tag) =
      match crate.openDetached key nonce aad ciphertext tag with
      | some plaintext => .ok plaintext (plaintext ++ tag)
      | none => .err () (crate.openResidue key nonce aad ciphertext tag ++ tag) := by
  have hlen : (ciphertext ++ tag).length - 16 = ciphertext.length := by
    rw [List.length_append, htag, Nat.add_sub_cancel]
  simp only [openInPlace, hlen, List.take_left, List.drop_left]
  rw [if_neg (by rw [List.length_append]; omega)]

end Crate

end Gcm

end SmartSfp
