import SmartSfp.Lib.Buffer

/-!
# Provider — algorithms, errors, keys and the provider trait of `acm-crypto`
-/

namespace SmartSfp

open Lib

/-- Bytes: a `Vec<u8>`, `&[u8]` or `&mut [u8]`. -/
abbrev Octets := List UInt8

/-- Algorithm identifier, a single byte embedded in every wire frame. -/
inductive AlgoId where
  | aes128Gcm
  | aes256Gcm
  | ozDst1105
  deriving DecidableEq, Repr

namespace AlgoId

/-- `algo as u8`. -/
def toU8 : AlgoId → UInt8
  | aes128Gcm => 0x01
  | aes256Gcm => 0x02
  | ozDst1105 => 0x10

def fromU8 (v : UInt8) : Option AlgoId :=
  match v with
  | 0x01 => some aes128Gcm
  | 0x02 => some aes256Gcm
  | 0x10 => some ozDst1105
  | _ => none

def keyLen : AlgoId → Nat
  | aes128Gcm => 16
  | aes256Gcm => 32
  | ozDst1105 => 32

def nonceLen : AlgoId → Nat
  | aes128Gcm | aes256Gcm => 12
  | ozDst1105 => 12

def tagLen : AlgoId → Nat
  | aes128Gcm | aes256Gcm => 16
  | ozDst1105 => 16

/-- The `{:?}` rendering. -/
def debug : AlgoId → String
  | aes128Gcm => "Aes128Gcm"
  | aes256Gcm => "Aes256Gcm"
  | ozDst1105 => "OzDst1105"

theorem aes128Gcm_ne : aes128Gcm ≠ ozDst1105 := by decide

theorem aes256Gcm_ne : aes256Gcm ≠ ozDst1105 := by decide

@[simp] theorem nonceLen_eq (a : AlgoId) : a.nonceLen = 12 := by
  cases a <;> rfl

@[simp] theorem tagLen_eq (a : AlgoId) : a.tagLen = 16 := by
  cases a <;> rfl

@[simp] theorem fromU8_toU8 (a : AlgoId) : fromU8 a.toU8 = some a := by
  cases a <;> rfl

theorem fromU8_eq_some_iff {v : UInt8} {a : AlgoId} : fromU8 v = some a ↔ v = a.toU8 := by
  constructor
  · intro h
    unfold fromU8 at h
    split at h <;> cases h <;> rfl
  · rintro rfl
    exact fromU8_toU8 a

end AlgoId

/-- Why a provider refused. -/
inductive CryptoError where
  | invalidKey (expected got : Nat)
  | invalidNonce (expected got : Nat)
  | bufferTooSmall (need room : Nat)
  | authFailed
  | algorithmMismatch (provider key : AlgoId)
  | providerUnavailable (message : String)
  | io (message : String)
  deriving DecidableEq, Repr

/-- The `Display` text. -/
def CryptoError.display : CryptoError → String
  | invalidKey expected got => s!"invalid key length (expected {expected}, got {got})"
  | invalidNonce expected got => s!"invalid nonce length (expected {expected}, got {got})"
  | bufferTooSmall need room =>
      s!"output buffer too small (need at least {need} bytes, have {room})"
  | authFailed => "authentication failed"
  | algorithmMismatch provider key =>
      s!"algorithm mismatch (provider is {provider.debug}, key is {key.debug})"
  | providerUnavailable message => s!"provider unavailable: {message}"
  | io message => s!"io: {message}"

/-- Raw key material with the algorithm it was bound to. -/
structure KeyHandle where
  id : UInt32
  algo : AlgoId
  material : Octets
  deriving DecidableEq, Repr

namespace KeyHandle

def new (id : UInt32) (algo : AlgoId) (material : Octets) : Except CryptoError KeyHandle :=
  if material.length ≠ algo.keyLen then
    .error (.invalidKey algo.keyLen material.length)
  else
    .ok ⟨id, algo, material⟩

/-- `Vec::zeroize` overwrites the material with zeroes and empties the vector. -/
def wipe (key : KeyHandle) : KeyHandle := { key with material := [] }

/-- What `new` checks. -/
def WellFormed (key : KeyHandle) : Prop := key.material.length = key.algo.keyLen

theorem new_eq_ok_iff {id : UInt32} {algo : AlgoId} {material : Octets} {key : KeyHandle} :
    new id algo material = .ok key ↔
      material.length = algo.keyLen ∧ key = ⟨id, algo, material⟩ := by
  unfold new
  split
  · rename_i h
    simp [h]
  · rename_i h
    rw [not_not] at h
    simp [h, eq_comm]

theorem wellFormed_of_new {id : UInt32} {algo : AlgoId} {material : Octets} {key : KeyHandle}
    (h : new id algo material = .ok key) : key.WellFormed := by
  obtain ⟨hlen, rfl⟩ := new_eq_ok_iff.mp h
  exact hlen

end KeyHandle

/-- The provider trait.  `seal_` writes ciphertext-then-tag into the front of the buffer it borrows
and `open_` the plaintext; both return the number of bytes written.  The buffer is a `&mut [u8]`,
so no implementation can change its length. -/
structure CryptoProvider where
  algorithm : AlgoId
  seal_ : KeyHandle → (nonce aad plaintext : Octets) → Exec Octets CryptoError Nat
  open_ : KeyHandle → (nonce aad ciphertext : Octets) → Exec Octets CryptoError Nat
  seal_keeps : ∀ key nonce aad plaintext, (seal_ key nonce aad plaintext).Keeps
  open_keeps : ∀ key nonce aad ciphertext, (open_ key nonce aad ciphertext).Keeps

end SmartSfp
