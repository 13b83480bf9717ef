import Mathlib.Data.Set.Basic
import Mathlib.Tactic.Common

/-!
# Aead — authenticated encryption with associated data, as two relations

Sealing under a key, a nonce and associated data relates a plaintext to a sealed text; opening goes
back.  Both are relations, so that a partial function, a program with an output buffer and a frame
format built over another AEAD are all instances.  `Correct` is the round trip, `Authentic log` is
the ideal integrity notion: nothing opens unless it was sealed before.
-/

namespace SmartSfp.Lib

variable {K N A P C F : Type}

/-- An AEAD over keys, nonces, associated data, plaintexts and sealed texts. -/
structure Aead (K N A P C : Type) where
  Seals : K → N → A → P → C → Prop
  Opens : K → N → A → C → P → Prop

/-- One sealing that took place. -/
structure SealRecord (K N A P C : Type) where
  key : K
  nonce : N
  aad : A
  plaintext : P
  sealed : C

namespace Aead

/-- Opening inverts sealing for equal key, nonce and associated data. -/
def Correct (E : Aead K N A P C) : Prop :=
  ∀ k n a p c, E.Seals k n a p c → E.Opens k n a c p

/-- Every plaintext the predicate admits can be sealed. -/
def SealsOn (E : Aead K N A P C) (admissible : P → Prop) : Prop :=
  ∀ k n a p, admissible p → ∃ c, E.Seals k n a p c

/-- Only what the log records opens, and only to the plaintext recorded. -/
def Authentic (E : Aead K N A P C) (log : Set (SealRecord K N A P C)) : Prop :=
  ∀ k n a c p, E.Opens k n a c p → ⟨k, n, a, p, c⟩ ∈ log

/-- A frame format over an AEAD: the header is the associated data, and header, nonce and sealed
text are written into one frame, which is all that opening is given. -/
def framed (E : Aead K N A P C) (frame : A → N → C → F) : Aead K Unit Unit P F where
  Seals k _ _ p f := ∃ a n c, E.Seals k n a p c ∧ f = frame a n c
  Opens k _ _ f p := ∃ a n c, E.Opens k n a c p ∧ f = frame a n c

/-- A frame that opens is, byte for byte, the frame of some recorded sealing of that plaintext
under that key. -/
theorem framed_authentic {E : Aead K N A P C} {log : Set (SealRecord K N A P C)}
    (h : E.Authentic log) (frame : A → N → C → F) {k : K} {f : F} {p : P}
    (hopen : (E.framed frame).Opens k () () f p) :
    ∃ r ∈ log, r.key = k ∧ r.plaintext = p ∧ f = frame r.aad r.nonce r.sealed := by
  obtain ⟨a, n, c, hinner, rfl⟩ := hopen
  exact ⟨_, h k n a c p hinner, rfl, rfl, rfl⟩

end Aead

end SmartSfp.Lib
