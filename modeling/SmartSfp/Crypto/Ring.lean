import SmartSfp.Crypto.Spec

/-!
# Ring — `AesGcmRingProvider`
-/

namespace SmartSfp

open Lib Exec

/-- The field is private and `new` is the only constructor, so the algorithm is an AES one. -/
structure AesGcmRingProvider where
  algo : AlgoId
  supported : algo ≠ .ozDst1105
  deriving DecidableEq

namespace AesGcmRingProvider

def new (algo : AlgoId) : Except CryptoError AesGcmRingProvider :=
  match algo with
  | .aes128Gcm => .ok ⟨.aes128Gcm, AlgoId.aes128Gcm_ne⟩
  | .aes256Gcm => .ok ⟨.aes256Gcm, AlgoId.aes256Gcm_ne⟩
  | other => .error (.providerUnavailable s!"AesGcmRingProvider doesn't support {other.debug}")

variable {σ ε : Type} (crate : Gcm.Crate) (self : AesGcmRingProvider)

def ringAlgo : Exec σ ε Gcm.Variant :=
  match self.algo with
  | .aes128Gcm => pure .aes128
  | .aes256Gcm => pure .aes256
  | .ozDst1105 => abort .unreachable

def boundKey (material : Octets) : Exec σ CryptoError Gcm.Key := do
  let algo ← self.ringAlgo
  okOr (Gcm.Key.new algo material) (.invalidKey self.algo.keyLen material.length)

def seal_ (key : KeyHandle) (nonce aad plaintext : Octets) : Exec Octets CryptoError Nat := do
  failIf (key.algo ≠ self.algo) (.algorithmMismatch self.algo key.algo)
  failIf (nonce.length ≠ self.algo.nonceLen) (.invalidNonce self.algo.nonceLen nonce.length)
  let need ← addUsize plaintext.length self.algo.tagLen
  let room ← len
  failIf (room < need) (.bufferTooSmall need room)
  let safeKey ← self.boundKey key.material
  let nonceArr ← okOr (Gcm.Nonce.ofSlice nonce) (.invalidNonce 12 nonce.length)
  copyFromSlice 0 plaintext.length plaintext
  let tag ← mapErr (fun _ => .providerUnavailable "ring seal")
    (window 0 plaintext.length (crate.sealInPlace safeKey nonceArr aad))
  copyFromSlice plaintext.length need tag
  return need

def open_ (key : KeyHandle) (nonce aad ciphertext : Octets) : Exec Octets CryptoError Nat := do
  let tagLen := self.algo.tagLen
  failIf (ciphertext.length < tagLen) .authFailed
  failIf (key.algo ≠ self.algo) (.algorithmMismatch self.algo key.algo)
  failIf (nonce.length ≠ self.algo.nonceLen) (.invalidNonce self.algo.nonceLen nonce.length)
  let ptLen ← subUsize ciphertext.length tagLen
  let room ← len
  failIf (room < ptLen) (.bufferTooSmall ptLen room)
  let safeKey ← self.boundKey key.material
  let nonceArr ← okOr (Gcm.Nonce.ofSlice nonce) (.invalidNonce 12 nonce.length)
  -- `work_buf` is a copy of the ciphertext; the primitive works on that, not on `out`
  let (result, _workBuf) ← callWith ciphertext (crate.openInPlace safeKey nonceArr aad)
  match result with
  | .error _ => fail .authFailed
  | .ok ptSlice =>
    copyFromSlice 0 ptSlice.length ptSlice
    return ptSlice.length

theorem ringAlgo_eq : (self.ringAlgo : Exec σ ε Gcm.Variant) =
    pure (self.algo.variant self.supported) := by
  obtain ⟨algo, supported⟩ := self
  cases algo with
  | aes128Gcm => rfl
  | aes256Gcm => rfl
  | ozDst1105 => exact absurd rfl supported

theorem boundKey_eq (material : Octets) : (self.boundKey material : Exec σ CryptoError Gcm.Key) =
    okOr (Gcm.Key.new (self.algo.variant self.supported) material)
      (.invalidKey self.algo.keyLen material.length) := by
  rw [boundKey, ringAlgo_eq, pure_bind]

theorem seal_run (key : KeyHandle) (nonce aad plaintext out : Octets)
    (hfit : plaintext.length ≤ isizeMax) :
    (self.seal_ crate key nonce aad plaintext).run out =
      AesGcm.sealSpec crate self.algo self.supported "ring seal" key nonce aad plaintext out := by
  have hneed : plaintext.length + 16 < usizeSize := by
    simp only [isizeMax, usizeSize] at *
    omega
  unfold seal_ AesGcm.sealSpec
  simp only [AlgoId.nonceLen_eq, AlgoId.tagLen_eq, boundKey_eq]
  by_cases halgo : key.algo = self.algo
  · simp only [halgo, ne_eq, not_true_eq_false, if_false]
    by_cases hnonce : nonce.length = 12
    · simp only [Gcm.Nonce.ofSlice_eq_some hnonce, hnonce, not_true_eq_false, if_false, run_bind,
        run_failIf, run_okOr_some, Outcome.bind_ok, run_addUsize hneed, run_len]
      by_cases hroom : out.length < plaintext.length + 16
      · simp only [hroom, if_true, Outcome.bind_err]
      · simp only [hroom, if_false, Outcome.bind_ok]
        cases Gcm.Key.new (self.algo.variant self.supported) key.material with
        | none => rfl
        | some k => exact AesGcm.run_encrypt_into crate _ k _ aad plaintext out (by omega)
    · simp [Gcm.Nonce.ofSlice, hnonce]
  · simp [halgo]

/-- The plaintext is decrypted in a temporary, so a rejected tag leaves `out` alone. -/
theorem open_run (key : KeyHandle) (nonce aad body out : Octets) :
    (self.open_ crate key nonce aad body).run out =
      AesGcm.openSpec crate self.algo self.supported (fun _ _ _ _ _ out => out)
        key nonce aad body out := by
  unfold open_ AesGcm.openSpec
  simp only [AlgoId.nonceLen_eq, AlgoId.tagLen_eq, boundKey_eq]
  by_cases hbody : body.length < 16
  · simp [hbody]
  by_cases halgo : key.algo = self.algo
  · simp only [hbody, halgo, ne_eq, not_true_eq_false, if_false]
    by_cases hnonce : nonce.length = 12
    · simp only [Gcm.Nonce.ofSlice_eq_some hnonce, hnonce, not_true_eq_false, if_false, run_bind,
        run_failIf, run_okOr_some, Outcome.bind_ok, run_subUsize (Nat.not_lt.mp hbody), run_len]
      by_cases hroom : out.length < body.length - 16
      · simp only [hroom, if_true, Outcome.bind_err]
      · simp only [hroom, if_false, Outcome.bind_ok]
        cases Gcm.Key.new (self.algo.variant self.supported) key.material with
        | none => rfl
        | some k => exact AesGcm.run_decrypt_copied crate k _ aad body out (by omega) (by omega)
    · simp [Gcm.Nonce.ofSlice, hnonce]
  · simp [hbody, halgo]

theorem keeps_seal (key : KeyHandle) (nonce aad plaintext : Octets) :
    (self.seal_ crate key nonce aad plaintext).Keeps := by
  unfold seal_
  rw [boundKey_eq]
  exact keeps_bind (keeps_failIf _ _) fun _ => keeps_bind (keeps_failIf _ _) fun _ =>
    keeps_bind (keeps_addUsize _ _) fun _ => keeps_bind keeps_len fun _ =>
    keeps_bind (keeps_failIf _ _) fun _ => keeps_bind (keeps_okOr _ _) fun _ =>
    keeps_bind (keeps_okOr _ _) fun _ => keeps_bind (keeps_copyFromSlice _ _ _) fun _ =>
    keeps_bind (keeps_mapErr (keeps_window (crate.keeps_sealInPlace _ _ _))) fun _ =>
    keeps_bind (keeps_copyFromSlice _ _ _) fun _ => keeps_pure _

theorem keeps_open (key : KeyHandle) (nonce aad ciphertext : Octets) :
    (self.open_ crate key nonce aad ciphertext).Keeps := by
  unfold open_
  rw [boundKey_eq]
  refine keeps_bind (keeps_failIf _ _) fun _ => keeps_bind (keeps_failIf _ _) fun _ =>
    keeps_bind (keeps_failIf _ _) fun _ => keeps_bind (keeps_subUsize _ _) fun _ =>
    keeps_bind keeps_len fun _ => keeps_bind (keeps_failIf _ _) fun _ =>
    keeps_bind (keeps_okOr _ _) fun _ => keeps_bind (keeps_okOr _ _) fun _ =>
    keeps_bind (keeps_callWith _ _) fun r => ?_
  obtain ⟨result, workBuf⟩ := r
  cases result with
  | error e => exact keeps_fail _
  | ok ptSlice => exact keeps_bind (keeps_copyFromSlice _ _ _) fun _ => keeps_pure _

/-- `Box<dyn CryptoProvider>`. -/
def toProvider : CryptoProvider where
  algorithm := self.algo
  seal_ := self.seal_ crate
  open_ := self.open_ crate
  seal_keeps := self.keeps_seal crate
  open_keeps := self.keeps_open crate

@[simp] theorem toProvider_algorithm : (self.toProvider crate).algorithm = self.algo := rfl

@[simp] theorem toProvider_seal : (self.toProvider crate).seal_ = self.seal_ crate := rfl

@[simp] theorem toProvider_open : (self.toProvider crate).open_ = self.open_ crate := rfl

end AesGcmRingProvider

end SmartSfp
