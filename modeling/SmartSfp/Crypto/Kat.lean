import SmartSfp.Crypto.Gcm

/-!
# Kat — a crate that knows a table of AES-GCM answers

`ofTable` answers from known-answer vectors and, outside the table, with the plaintext and a zero
tag; it keeps the crate laws and is correct for every admissible table.  `kat` holds the vectors of
the concrete runs in this development.
-/

namespace SmartSfp

open Lib

namespace Gcm

structure Vector where
  key : Key
  nonce : Nonce
  aad : Octets
  plaintext : Octets
  ciphertext : Octets
  tag : Octets
  deriving DecidableEq

def zeroTag : Octets := List.replicate 16 0

/-- A table to answer from: lengths as the crate interface has them, no zero tag, and no sealed text
with two plaintexts. -/
def Admissible (table : List Vector) : Prop :=
  ∀ v ∈ table, v.ciphertext.length = v.plaintext.length ∧ v.tag.length = 16 ∧ v.tag ≠ zeroTag ∧
    ∀ w ∈ table, v.key = w.key → v.nonce = w.nonce → v.aad = w.aad →
      v.ciphertext = w.ciphertext → v.tag = w.tag → v.plaintext = w.plaintext

instance (table : List Vector) : Decidable (Admissible table) :=
  inferInstanceAs (Decidable (∀ v ∈ table, _))

/-- The vector that seals `p`. -/
def lookupSeal (table : List Vector) (k : Key) (n : Nonce) (a p : Octets) : Option Vector :=
  table.find? fun v => decide (v.key = k ∧ v.nonce = n ∧ v.aad = a ∧ v.plaintext = p)

/-- The vector that opens `c` and `t`. -/
def lookupOpen (table : List Vector) (k : Key) (n : Nonce) (a c t : Octets) : Option Vector :=
  table.find? fun v =>
    decide (v.key = k ∧ v.nonce = n ∧ v.aad = a ∧ v.ciphertext = c ∧ v.tag = t)

theorem lookupSeal_spec {table : List Vector} {k : Key} {n : Nonce} {a p : Octets} {v : Vector}
    (h : lookupSeal table k n a p = some v) :
    v ∈ table ∧ v.key = k ∧ v.nonce = n ∧ v.aad = a ∧ v.plaintext = p :=
  ⟨List.mem_of_find?_eq_some h, by simpa using List.find?_some h⟩

theorem lookupOpen_spec {table : List Vector} {k : Key} {n : Nonce} {a c t : Octets} {v : Vector}
    (h : lookupOpen table k n a c t = some v) :
    v ∈ table ∧ v.key = k ∧ v.nonce = n ∧ v.aad = a ∧ v.ciphertext = c ∧ v.tag = t :=
  ⟨List.mem_of_find?_eq_some h, by simpa using List.find?_some h⟩

/-- The crate of a table. -/
def ofTable (table : List Vector) (hadm : Admissible table) : Crate where
  sealDetached k n a p :=
    match lookupSeal table k n a p with
    | some v => some (v.ciphertext, v.tag)
    | none => some (p, zeroTag)
  sealResidue _ _ _ p := p
  openDetached k n a c t :=
    match lookupOpen table k n a c t with
    | some v => some v.plaintext
    | none => if t = zeroTag then some c else none
  openResidue _ _ _ c _ := c
  sealDetached_length := by
    intro k n a p c t h
    split at h
    · rename_i v hv
      obtain ⟨hmem, -, -, -, rfl⟩ := lookupSeal_spec hv
      cases h
      exact ⟨(hadm v hmem).1, (hadm v hmem).2.1⟩
    · cases h
      exact ⟨rfl, rfl⟩
  sealResidue_length _ _ _ _ := rfl
  openDetached_length := by
    intro k n a c t p h
    split at h
    · rename_i v hv
      obtain ⟨hmem, -, -, -, rfl, -⟩ := lookupOpen_spec hv
      cases h
      exact (hadm v hmem).1.symm
    · split at h
      · cases h
        rfl
      · cases h
  openResidue_length _ _ _ _ _ := rfl

theorem ofTable_correct (table : List Vector) (hadm : Admissible table) :
    (ofTable table hadm).aead.Correct := by
  rintro k n a p ⟨c, t⟩ hseal
  simp only [Crate.aead, ofTable] at hseal ⊢
  cases hv : lookupSeal table k n a p with
  | some v =>
    rw [hv] at hseal
    cases hseal
    obtain ⟨hmem, rfl, rfl, rfl, rfl⟩ := lookupSeal_spec hv
    cases hw : lookupOpen table v.key v.nonce v.aad v.ciphertext v.tag with
    | some w =>
      obtain ⟨hmemw, hk, hn, ha, hc, ht⟩ := lookupOpen_spec hw
      simp only [(hadm v hmem).2.2.2 w hmemw hk.symm hn.symm ha.symm hc.symm ht.symm]
    | none =>
      have hfound := List.find?_eq_none.mp hw v hmem
      simp at hfound
  | none =>
    rw [hv] at hseal
    cases hseal
    cases hw : lookupOpen table k n a p zeroTag with
    | some w =>
      obtain ⟨hmemw, -, -, -, -, ht⟩ := lookupOpen_spec hw
      exact absurd ht (hadm w hmemw).2.2.1
    | none => simp only [if_true]

theorem ofTable_sealsOn (table : List Vector) (hadm : Admissible table)
    (admissible : Octets → Prop) : (ofTable table hadm).aead.SealsOn admissible := by
  intro k n a p _
  simp only [Crate.aead, ofTable]
  cases lookupSeal table k n a p with
  | some v => exact ⟨_, rfl⟩
  | none => exact ⟨_, rfl⟩

/-! ## The vectors -/

namespace Kat

def material256 : Octets := List.replicate 32 0x42

def material128 : Octets := List.replicate 16 0x33

def key256 : Key := ⟨.aes256, material256, by decide⟩

def key128 : Key := ⟨.aes128, material128, by decide⟩

def zeroNonce : Nonce := ⟨List.replicate 12 0, by decide⟩

def nonce : Octets := [1, 2, 3, 4, 5, 6, 7, 8, 9, 10, 11, 12]

/-- `b"acm-uz-self-test"`. -/
def selfTestText : Octets :=
  [0x61, 0x63, 0x6d, 0x2d, 0x75, 0x7a, 0x2d, 0x73, 0x65, 0x6c, 0x66, 0x2d, 0x74, 0x65, 0x73, 0x74]

/-- The header of a frame of key 7 under AES-256-GCM. -/
def header256 : Octets := [0x41, 0x43, 1, 0, 0, 0, 0, 7, 2, 12, 0, 0]

/-- The header of a frame of key 9 under AES-128-GCM. -/
def header128 : Octets := [0x41, 0x43, 1, 0, 0, 0, 0, 9, 1, 12, 0, 0]

/-- `b"hi"`. -/
def text : Octets := [0x68, 0x69]

def vectors : List Vector := [
  { key := key256, nonce := zeroNonce, aad := [], plaintext := selfTestText
    ciphertext := [0x95, 0xd1, 0x92, 0xd4, 0x29, 0xf6, 0xa8, 0x94,
      0xfc, 0x23, 0x2d, 0x22, 0x45, 0xee, 0xc6, 0x25]
    tag := [0x05, 0x87, 0x49, 0xa7, 0x47, 0x91, 0x5b, 0xa9,
      0x01, 0x8a, 0x7d, 0xca, 0xf4, 0xf9, 0xc3, 0x42] },
  { key := key128, nonce := zeroNonce, aad := [], plaintext := selfTestText
    ciphertext := [0x50, 0x1c, 0x6d, 0x9e, 0x94, 0x45, 0x96, 0xc1,
      0xf6, 0xc3, 0x38, 0x55, 0xb5, 0xcd, 0xbe, 0x27]
    tag := [0xc9, 0xa9, 0x9d, 0xc8, 0x61, 0xbd, 0xaf, 0xca,
      0x9f, 0x9f, 0x6a, 0x51, 0xe0, 0x87, 0x41, 0x2b] },
  { key := key256, nonce := ⟨nonce, by decide⟩, aad := header256, plaintext := text
    ciphertext := [0xdd, 0x93]
    tag := [0xa1, 0x07, 0xfa, 0x5e, 0xf3, 0x62, 0xf4, 0x26,
      0x4c, 0x08, 0xdd, 0xbe, 0x7b, 0x4d, 0x87, 0xfc] },
  { key := key128, nonce := ⟨nonce, by decide⟩, aad := header128, plaintext := text
    ciphertext := [0xee, 0xfb]
    tag := [0xef, 0x0b, 0x0d, 0x78, 0x11, 0xbd, 0xce, 0x67,
      0x0f, 0x95, 0x15, 0xc5, 0xae, 0x2a, 0xf5, 0x99] }]

theorem vectors_admissible : Admissible vectors := by
  decide

/-- Key 7, as `KeyHandle::new` builds it. -/
def handle256 : KeyHandle := ⟨7, .aes256Gcm, material256⟩

/-- Key 9. -/
def handle128 : KeyHandle := ⟨9, .aes128Gcm, material128⟩

/-- `text` sealed under key 7 and `nonce`. -/
def sealed256 : Octets := [0xdd, 0x93, 0xa1, 0x07, 0xfa, 0x5e, 0xf3, 0x62, 0xf4, 0x26,
  0x4c, 0x08, 0xdd, 0xbe, 0x7b, 0x4d, 0x87, 0xfc]

def frame256 : Octets := header256 ++ nonce ++ sealed256

end Kat

/-- AES-GCM on the known-answer vectors. -/
def kat : Crate := ofTable Kat.vectors Kat.vectors_admissible

theorem kat_correct : kat.aead.Correct := ofTable_correct _ _

end Gcm

end SmartSfp
