import SmartSfp.Crypto.Ring
import SmartSfp.Crypto.Sw

/-!
# Wiped — a wiped key handle reaches no primitive

`sealWith` and `openWith` are the two providers' functions with the call of AES-GCM left open.  On a
wiped handle they fail in the same way whatever stands in its place, a program that panics included,
so the call is never made.
-/

namespace SmartSfp

open Lib Exec

theorem Gcm.Key.new_nil (variant : Gcm.Variant) : Gcm.Key.new variant [] = none := by
  cases variant <;> rfl

theorem AlgoId.zero_ne_keyLen (algo : AlgoId) : 0 ≠ algo.keyLen := by
  cases algo <;> decide

/-- The first wipe empties the material, the next ones find it empty. -/
theorem KeyHandle.iterate_wipe (key : KeyHandle) (n : Nat) : wipe^[n + 1] key = key.wipe := by
  induction n with
  | zero => rfl
  | succ n ih => rw [Function.iterate_succ_apply', ih, wipe, wipe]

namespace AesGcmRingProvider

variable (self : AesGcmRingProvider)

/-- `seal` over any program in the place of `seal_in_place_separate_tag`. -/
def sealWith (primitive : Gcm.Key → Gcm.Nonce → Octets → Exec Octets Unit Octets)
    (key : KeyHandle) (nonce aad plaintext : Octets) : Exec Octets CryptoError Nat := do
  failIf (key.algo ≠ self.algo) (.algorithmMismatch self.algo key.algo)
  failIf (nonce.length ≠ self.algo.nonceLen) (.invalidNonce self.algo.nonceLen nonce.length)
  let need ← addUsize plaintext.length self.algo.tagLen
  let room ← len
  failIf (room < need) (.bufferTooSmall need room)
  let safeKey ← self.boundKey key.material
  let nonceArr ← okOr (Gcm.Nonce.ofSlice nonce) (.invalidNonce 12 nonce.length)
  copyFromSlice 0 plaintext.length plaintext
  let tag ← mapErr (fun _ => .providerUnavailable "ring seal")
    (window 0 plaintext.length (primitive safeKey nonceArr aad))
  copyFromSlice plaintext.length need tag
  return need

/-- `open` over any program in the place of `open_in_place`. -/
def openWith (primitive : Gcm.Key → Gcm.Nonce → Octets → Exec Octets Unit Octets)
    (key : KeyHandle) (nonce aad ciphertext : Octets) : Exec Octets CryptoError Nat := do
  let tagLen := self.algo.tagLen
  failIf (ciphertext.length < tagLen) .authFailed
  failIf (key.algo ≠ self.algo) (.algorithmMismatch self.algo key.algo)
  failIf (nonce.length ≠ self.algo.nonceLen) (.invalidNonce self.algo.nonceLen nonce.length)
  let ptLen ← subUsize ciphertext.length tagLen
  let room ← len
  failIf (room < ptLen) (.bufferTooSmall ptLen room)
  let safeKey ← self.boundKey key.material
  let nonceArr ← okOr (Gcm.Nonce.ofSlice nonce) (.invalidNonce 12 nonce.length)
  let (result, _workBuf) ← callWith ciphertext (primitive safeKey nonceArr aad)
  match result with
  | .error _ => fail .authFailed
  | .ok ptSlice =>
    copyFromSlice 0 ptSlice.length ptSlice
    return ptSlice.length

theorem seal_eq_sealWith (crate : Gcm.Crate) : self.seal_ crate = self.sealWith crate.sealInPlace :=
  rfl

theorem open_eq_openWith (crate : Gcm.Crate) : self.open_ crate = self.openWith crate.openInPlace :=
  rfl

/-- Binding the key is the last check before the first write, and it looks at the length. -/
theorem boundKey_nil {σ : Type} : (self.boundKey [] : Exec σ CryptoError Gcm.Key) =
    okOr none (.invalidKey self.algo.keyLen 0) := by
  rw [self.boundKey_eq, Gcm.Key.new_nil, List.length_nil]

variable {key : KeyHandle} (hwiped : key.material = [])

include hwiped

theorem sealWith_wiped (nonce aad : Octets) (plaintext : Slice UInt8) (out : Octets) :
    Refuse (fun primitive => self.sealWith primitive key nonce aad plaintext.data) out := by
  have hneed : plaintext.data.length + 16 < usizeSize := by
    have hfit := plaintext.length_le
    simp only [isizeMax, usizeSize] at *
    omega
  simp only [sealWith, AlgoId.nonceLen_eq, AlgoId.tagLen_eq, hwiped, self.boundKey_nil]
  refine refuse_failIf fun _ => refuse_failIf fun _ => ?_
  refine refuse_bind_ok (run_addUsize hneed out) (refuse_bind_ok (run_len out) ?_)
  exact refuse_failIf fun _ => refuse_bind_err (run_okOr_none _ out)

theorem openWith_wiped (nonce aad body out : Octets) :
    Refuse (fun primitive => self.openWith primitive key nonce aad body) out := by
  simp only [openWith, AlgoId.nonceLen_eq, AlgoId.tagLen_eq, hwiped, self.boundKey_nil]
  refine refuse_failIf fun hbody => refuse_failIf fun _ => refuse_failIf fun _ => ?_
  refine refuse_bind_ok (run_subUsize (Nat.not_lt.mp hbody) out) (refuse_bind_ok (run_len out) ?_)
  exact refuse_failIf fun _ => refuse_bind_err (run_okOr_none _ out)

end AesGcmRingProvider

namespace AesGcmSwProvider

variable (self : AesGcmSwProvider)

/-- One arm of `seal` over any program in the place of `encrypt_in_place_detached`. -/
def sealArmWith (primitive : Gcm.Key → Gcm.Nonce → Octets → Exec Octets Unit Octets)
    (variant : Gcm.Variant) (message : String) (key : KeyHandle) (nonce aad : Octets)
    (ptLen : Nat) : Exec Octets CryptoError Octets := do
  let cipher ← okOr (Gcm.Key.new variant key.material)
    (.invalidKey variant.keyLen key.material.length)
  let nonceArr ← nonceInto nonce
  mapErr (fun _ => .providerUnavailable message) (window 0 ptLen (primitive cipher nonceArr aad))

def sealWith (primitive : Gcm.Key → Gcm.Nonce → Octets → Exec Octets Unit Octets)
    (key : KeyHandle) (nonce aad plaintext : Octets) : Exec Octets CryptoError Nat := do
  self.checkInputs key nonce plaintext.length true
  let ptLen := plaintext.length
  let tagLen := self.algo.tagLen
  copyFromSlice 0 ptLen plaintext
  let tag ← match self.algo with
    | .aes128Gcm => sealArmWith primitive .aes128 "AES-128-GCM seal" key nonce aad ptLen
    | .aes256Gcm => sealArmWith primitive .aes256 "AES-256-GCM seal" key nonce aad ptLen
    | .ozDst1105 => abort .unreachable
  let total ← addUsize ptLen tagLen
  copyFromSlice ptLen total tag
  return total

/-- One arm of `open` over any program in the place of `decrypt_in_place_detached`. -/
def openArmWith (primitive : Gcm.Key → Gcm.Nonce → (aad tag : Octets) → Exec Octets Unit Unit)
    (variant : Gcm.Variant) (key : KeyHandle) (nonce aad tag : Octets) (ptLen : Nat) :
    Exec Octets CryptoError Unit := do
  let cipher ← okOr (Gcm.Key.new variant key.material)
    (.invalidKey variant.keyLen key.material.length)
  let nonceArr ← nonceInto nonce
  mapErr (fun _ => .authFailed) (window 0 ptLen (primitive cipher nonceArr aad tag))

def openWith (primitive : Gcm.Key → Gcm.Nonce → (aad tag : Octets) → Exec Octets Unit Unit)
    (key : KeyHandle) (nonce aad ciphertext : Octets) : Exec Octets CryptoError Nat := do
  let tagLen := self.algo.tagLen
  failIf (ciphertext.length < tagLen) .authFailed
  let ptLen ← subUsize ciphertext.length tagLen
  self.checkInputs key nonce ciphertext.length false
  copyFromSlice 0 ptLen (← slice ciphertext 0 ptLen)
  let tag ← tagFromSlice (← slice ciphertext ptLen ciphertext.length)
  match self.algo with
  | .aes128Gcm => openArmWith primitive .aes128 key nonce aad tag ptLen
  | .aes256Gcm => openArmWith primitive .aes256 key nonce aad tag ptLen
  | .ozDst1105 => abort .unreachable
  return ptLen

theorem seal_eq_sealWith (crate : Gcm.Crate) : self.seal_ crate = self.sealWith crate.sealInPlace :=
  rfl

theorem open_eq_openWith (crate : Gcm.Crate) :
    self.open_ crate = self.openWith crate.openInPlaceDetached := rfl

variable {key : KeyHandle} (hwiped : key.material = [])

include hwiped

/-- The length is checked up front, together with the algorithm. -/
theorem refuse_checkInputs {ι : Type} {x : ι → Unit → Exec Octets CryptoError Nat} (nonce : Octets)
    (bodyLen : Nat) (isSeal : Bool) (out : Octets) :
    Refuse (fun i => self.checkInputs key nonce bodyLen isSeal >>= x i) out := by
  have hmalformed : ¬ key.WellFormed := by
    rw [KeyHandle.WellFormed, hwiped]
    exact key.algo.zero_ne_keyLen
  have hrun := self.checkInputs_run_malformed hmalformed nonce out bodyLen isSeal
  split at hrun
  · exact refuse_bind_err hrun
  · exact refuse_bind_err hrun

theorem sealWith_wiped (nonce aad plaintext out : Octets) :
    Refuse (fun primitive => self.sealWith primitive key nonce aad plaintext) out :=
  self.refuse_checkInputs hwiped nonce _ _ out

theorem openWith_wiped (nonce aad body out : Octets) :
    Refuse (fun primitive => self.openWith primitive key nonce aad body) out := by
  simp only [openWith, AlgoId.tagLen_eq]
  refine refuse_failIf fun hbody => refuse_bind_ok (run_subUsize (Nat.not_lt.mp hbody) out) ?_
  exact self.refuse_checkInputs hwiped nonce _ _ out

end AesGcmSwProvider

/-- However often a handle is wiped, sealing and opening under it fail with the buffer untouched,
and the error does not depend on what stands in the place of the primitive. -/
theorem wiped_refused (key : KeyHandle) (n : Nat) (nonce aad : Octets) (body : Slice UInt8)
    (out : Octets) :
    let wiped := KeyHandle.wipe^[n + 1] key
    (∀ self : AesGcmRingProvider,
      (∃ e, (∀ crate, (self.seal_ crate wiped nonce aad body.data).run out = .err e out) ∧
        ∀ primitive, (self.sealWith primitive wiped nonce aad body.data).run out = .err e out) ∧
      ∃ e, (∀ crate, (self.open_ crate wiped nonce aad body.data).run out = .err e out) ∧
        ∀ primitive, (self.openWith primitive wiped nonce aad body.data).run out = .err e out) ∧
    ∀ self : AesGcmSwProvider,
      (∃ e, (∀ crate, (self.seal_ crate wiped nonce aad body.data).run out = .err e out) ∧
        ∀ primitive, (self.sealWith primitive wiped nonce aad body.data).run out = .err e out) ∧
      ∃ e, (∀ crate, (self.open_ crate wiped nonce aad body.data).run out = .err e out) ∧
        ∀ primitive, (self.openWith primitive wiped nonce aad body.data).run out = .err e out := by
  have hwiped : (KeyHandle.wipe^[n + 1] key).material = [] := by
    rw [key.iterate_wipe]
    rfl
  intro wiped
  refine ⟨fun self => ⟨?_, ?_⟩, fun self => ⟨?_, ?_⟩⟩
  · obtain ⟨e, he⟩ := self.sealWith_wiped hwiped nonce aad body out
    exact ⟨e, fun crate => self.seal_eq_sealWith crate ▸ he _, he⟩
  · obtain ⟨e, he⟩ := self.openWith_wiped hwiped nonce aad body.data out
    exact ⟨e, fun crate => self.open_eq_openWith crate ▸ he _, he⟩
  · obtain ⟨e, he⟩ := self.sealWith_wiped hwiped nonce aad body.data out
    exact ⟨e, fun crate => self.seal_eq_sealWith crate ▸ he _, he⟩
  · obtain ⟨e, he⟩ := self.openWith_wiped hwiped nonce aad body.data out
    exact ⟨e, fun crate => self.open_eq_openWith crate ▸ he _, he⟩

end SmartSfp
