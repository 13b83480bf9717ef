import SmartSfp.Crypto.Spec

/-!
# Sw — `AesGcmSwProvider`
-/

namespace SmartSfp

open Lib Exec

/-- The field is private and `new` is the only constructor, so the algorithm is an AES one. -/
structure AesGcmSwProvider where
  algo : AlgoId
  supported : algo ≠ .ozDst1105

namespace AesGcmSwProvider

def new (algo : AlgoId) : Except CryptoError AesGcmSwProvider :=
  match algo with
  | .aes128Gcm => .ok ⟨.aes128Gcm, AlgoId.aes128Gcm_ne⟩
  | .aes256Gcm => .ok ⟨.aes256Gcm, AlgoId.aes256Gcm_ne⟩
  | other => .error (.providerUnavailable s!"AesGcmSwProvider doesn't support {other.debug}")

variable {σ ε : Type} (crate : Gcm.Crate) (self : AesGcmSwProvider)

def checkInputs (key : KeyHandle) (nonce : Octets) (bodyLen : Nat) (isSeal : Bool) :
    Exec Octets CryptoError Unit := do
  failIf (key.algo ≠ self.algo) (.algorithmMismatch self.algo key.algo)
  failIf (key.material.length ≠ self.algo.keyLen)
    (.invalidKey self.algo.keyLen key.material.length)
  failIf (nonce.length ≠ self.algo.nonceLen) (.invalidNonce self.algo.nonceLen nonce.length)
  -- `saturating_sub` on the way in, a plain addition on the way out
  let need ← (if isSeal then addUsize bodyLen self.algo.tagLen
    else pure (bodyLen - self.algo.tagLen))
  let room ← len
  failIf (room < need) (.bufferTooSmall need room)

/-- `nonce.into()`: a `GenericArray` of 12 bytes, or a panic. -/
def nonceInto (nonce : Octets) : Exec σ ε Gcm.Nonce :=
  match Gcm.Nonce.ofSlice nonce with
  | some n => pure n
  | none => abort .lengthMismatch

/-- `Tag::from_slice`: a `GenericArray` of 16 bytes, or a panic. -/
def tagFromSlice (bytes : Octets) : Exec σ ε Octets :=
  if bytes.length = 16 then pure bytes else abort .lengthMismatch

/-- One arm of the `match` in `seal`. -/
def sealArm (variant : Gcm.Variant) (message : String) (key : KeyHandle)
    (nonce aad : Octets) (ptLen : Nat) : Exec Octets CryptoError Octets := do
  let cipher ← okOr (Gcm.Key.new variant key.material)
    (.invalidKey variant.keyLen key.material.length)
  let nonceArr ← nonceInto nonce
  mapErr (fun _ => .providerUnavailable message)
    (window 0 ptLen (crate.sealInPlace cipher nonceArr aad))

def seal_ (key : KeyHandle) (nonce aad plaintext : Octets) : Exec Octets CryptoError Nat := do
  self.checkInputs key nonce plaintext.length true
  let ptLen := plaintext.length
  let tagLen := self.algo.tagLen
  copyFromSlice 0 ptLen plaintext
  let tag ← match self.algo with
    | .aes128Gcm => sealArm crate .aes128 "AES-128-GCM seal" key nonce aad ptLen
    | .aes256Gcm => sealArm crate .aes256 "AES-256-GCM seal" key nonce aad ptLen
    | .ozDst1105 => abort .unreachable
  let total ← addUsize ptLen tagLen
  copyFromSlice ptLen total tag
  return total

/-- One arm of the `match` in `open`. -/
def openArm (variant : Gcm.Variant) (key : KeyHandle) (nonce aad tag : Octets) (ptLen : Nat) :
    Exec Octets CryptoError Unit := do
  let cipher ← okOr (Gcm.Key.new variant key.material)
    (.invalidKey variant.keyLen key.material.length)
  let nonceArr ← nonceInto nonce
  mapErr (fun _ => .authFailed)
    (window 0 ptLen (crate.openInPlaceDetached cipher nonceArr aad tag))

def open_ (key : KeyHandle) (nonce aad ciphertext : Octets) : Exec Octets CryptoError Nat := do
  let tagLen := self.algo.tagLen
  failIf (ciphertext.length < tagLen) .authFailed
  let ptLen ← subUsize ciphertext.length tagLen
  self.checkInputs key nonce ciphertext.length false
  copyFromSlice 0 ptLen (← slice ciphertext 0 ptLen)
  let tag ← tagFromSlice (← slice ciphertext ptLen ciphertext.length)
  match self.algo with
  | .aes128Gcm => openArm crate .aes128 key nonce aad tag ptLen
  | .aes256Gcm => openArm crate .aes256 key nonce aad tag ptLen
  | .ozDst1105 => abort .unreachable
  return ptLen

/-- The text of a refusal by the crate. -/
def sealMessage : String :=
  match self.algo with
  | .aes128Gcm => "AES-128-GCM seal"
  | _ => "AES-256-GCM seal"

theorem checkInputs_run_seal {key : KeyHandle} {nonce out : Octets} {bodyLen : Nat}
    (hkey : key.WellFormed) (hneed : bodyLen + 16 < usizeSize) :
    (self.checkInputs key nonce bodyLen true).run out =
      if key.algo ≠ self.algo then .err (.algorithmMismatch self.algo key.algo) out
      else if nonce.length ≠ 12 then .err (.invalidNonce 12 nonce.length) out
      else if out.length < bodyLen + 16 then .err (.bufferTooSmall (bodyLen + 16) out.length) out
      else .ok () out := by
  simp only [checkInputs, AlgoId.nonceLen_eq, AlgoId.tagLen_eq]
  by_cases halgo : key.algo = self.algo
  · have hlen : key.material.length = self.algo.keyLen := halgo ▸ hkey
    by_cases hnonce : nonce.length = 12 <;> simp [halgo, hlen, hnonce, run_addUsize hneed]
  · simp [halgo]

theorem checkInputs_run_open {key : KeyHandle} {nonce out : Octets} {bodyLen : Nat}
    (hkey : key.WellFormed) :
    (self.checkInputs key nonce bodyLen false).run out =
      if key.algo ≠ self.algo then .err (.algorithmMismatch self.algo key.algo) out
      else if nonce.length ≠ 12 then .err (.invalidNonce 12 nonce.length) out
      else if out.length < bodyLen - 16 then .err (.bufferTooSmall (bodyLen - 16) out.length) out
      else .ok () out := by
  simp only [checkInputs, AlgoId.nonceLen_eq, AlgoId.tagLen_eq]
  by_cases halgo : key.algo = self.algo
  · have hlen : key.material.length = self.algo.keyLen := halgo ▸ hkey
    by_cases hnonce : nonce.length = 12 <;> simp [halgo, hlen, hnonce]
  · simp [halgo]

/-- A handle that does not hold what `KeyHandle::new` checks is refused up front, for its algorithm
or its length. -/
theorem checkInputs_run_malformed {key : KeyHandle} (hkey : ¬ key.WellFormed) (nonce out : Octets)
    (bodyLen : Nat) (isSeal : Bool) :
    (self.checkInputs key nonce bodyLen isSeal).run out =
      if key.algo ≠ self.algo then .err (.algorithmMismatch self.algo key.algo) out
      else .err (.invalidKey self.algo.keyLen key.material.length) out := by
  simp only [checkInputs]
  by_cases halgo : key.algo = self.algo
  · have hlen : key.material.length ≠ self.algo.keyLen := halgo ▸ hkey
    simp [halgo, hlen]
  · simp [halgo]

theorem sealArm_eq {variant : Gcm.Variant} {key : KeyHandle} {nonce : Octets} {k : Gcm.Key}
    {n : Gcm.Nonce} (hk : Gcm.Key.new variant key.material = some k)
    (hn : Gcm.Nonce.ofSlice nonce = some n) (message : String) (aad : Octets) (ptLen : Nat) :
    sealArm crate variant message key nonce aad ptLen =
      mapErr (fun _ => .providerUnavailable message)
        (window 0 ptLen (crate.sealInPlace k n aad)) := by
  rw [sealArm, hk, nonceInto, hn]
  rfl

theorem openArm_eq {variant : Gcm.Variant} {key : KeyHandle} {nonce : Octets} {k : Gcm.Key}
    {n : Gcm.Nonce} (hk : Gcm.Key.new variant key.material = some k)
    (hn : Gcm.Nonce.ofSlice nonce = some n) (aad tag : Octets) (ptLen : Nat) :
    openArm crate variant key nonce aad tag ptLen =
      mapErr (fun _ => .authFailed)
        (window 0 ptLen (crate.openInPlaceDetached k n aad tag)) := by
  rw [openArm, hk, nonceInto, hn]
  rfl

/-- The `unreachable!` arm is never taken. -/
theorem seal_eq (key : KeyHandle) (nonce aad plaintext : Octets) :
    self.seal_ crate key nonce aad plaintext = (do
      self.checkInputs key nonce plaintext.length true
      copyFromSlice 0 plaintext.length plaintext
      let tag ← sealArm crate (self.algo.variant self.supported) self.sealMessage key nonce aad
        plaintext.length
      let total ← addUsize plaintext.length self.algo.tagLen
      copyFromSlice plaintext.length total tag
      return total) := by
  obtain ⟨algo, supported⟩ := self
  cases algo with
  | aes128Gcm => rfl
  | aes256Gcm => rfl
  | ozDst1105 => exact absurd rfl supported

theorem open_eq (key : KeyHandle) (nonce aad ciphertext : Octets) :
    self.open_ crate key nonce aad ciphertext = (do
      failIf (ciphertext.length < self.algo.tagLen) .authFailed
      let ptLen ← subUsize ciphertext.length self.algo.tagLen
      self.checkInputs key nonce ciphertext.length false
      copyFromSlice 0 ptLen (← slice ciphertext 0 ptLen)
      let tag ← tagFromSlice (← slice ciphertext ptLen ciphertext.length)
      openArm crate (self.algo.variant self.supported) key nonce aad tag ptLen
      return ptLen) := by
  obtain ⟨algo, supported⟩ := self
  cases algo with
  | aes128Gcm => rfl
  | aes256Gcm => rfl
  | ozDst1105 => exact absurd rfl supported

/-- Decrypting in `out`: what the crate leaves of the ciphertext stays there when it refuses. -/
theorem run_decrypt_in_place (k : Gcm.Key) (n : Gcm.Nonce) (aad body out : Octets)
    (hbody : 16 ≤ body.length) (hroom : body.length - 16 ≤ out.length) :
    (do copyFromSlice 0 (body.length - 16) (← slice body 0 (body.length - 16))
        let tag ← tagFromSlice (← slice body (body.length - 16) body.length)
        mapErr (fun _ => .authFailed)
          (window 0 (body.length - 16) (crate.openInPlaceDetached k n aad tag))
        return body.length - 16 : Exec Octets CryptoError Nat).run out =
      match crate.openDetached k n aad (body.take (body.length - 16))
        (body.drop (body.length - 16)) with
      | none => .err .authFailed (crate.openResidue k n aad (body.take (body.length - 16))
          (body.drop (body.length - 16)) ++ out.drop (body.take (body.length - 16)).length)
      | some p => .ok p.length (p ++ out.drop p.length) := by
  obtain ⟨ct, tag, rfl, hct, -⟩ := exists_split (n := body.length - 16) (s := body) (by omega)
  have htag : tag.length = 16 := by
    rw [List.length_append] at hct hbody
    omega
  have hlen : (ct ++ tag).length - 16 = ct.length := by omega
  rw [hlen] at hroom ⊢
  obtain ⟨front, slack, rfl, hfront, -⟩ := exists_split (n := ct.length) (s := out) hroom
  have hgen : (tagFromSlice tag : Exec Octets CryptoError Octets) = pure tag := by
    rw [tagFromSlice, if_pos htag]
  have hslack : (front ++ slack).drop ct.length = slack := by
    rw [← hfront, List.drop_left]
  simp only [run_bind, run_slice (Nat.zero_le _) (by simp : ct.length ≤ (ct ++ tag).length),
    run_slice (by simp : ct.length ≤ (ct ++ tag).length) le_rfl, Outcome.bind_ok, List.drop_zero,
    List.take_left, List.take_length, List.drop_left, hgen, run_pure, run_mapErr, hslack,
    run_copyFromSlice_front hfront.symm hfront.symm, run_window_front _ rfl]
  simp only [Gcm.Crate.openInPlaceDetached]
  cases h : crate.openDetached k n aad ct tag with
  | none => rfl
  | some p =>
    have hp := crate.openDetached_length h
    simp only [Outcome.mapState_ok, Outcome.mapErr_ok, Outcome.bind_ok, hp, hslack]

theorem variant_keyLen_of_algo {key : KeyHandle} (hkey : key.WellFormed)
    (halgo : key.algo = self.algo) :
    key.material.length = (self.algo.variant self.supported).keyLen := by
  rw [AlgoId.variant_keyLen, ← halgo]
  exact hkey

theorem seal_run {key : KeyHandle} (hkey : key.WellFormed) (nonce aad plaintext out : Octets)
    (hfit : plaintext.length ≤ isizeMax) :
    (self.seal_ crate key nonce aad plaintext).run out =
      AesGcm.sealSpec crate self.algo self.supported self.sealMessage key nonce aad plaintext
        out := by
  have hneed : plaintext.length + 16 < usizeSize := by
    simp only [isizeMax, usizeSize] at *
    omega
  rw [seal_eq]
  unfold AesGcm.sealSpec
  rw [run_bind, checkInputs_run_seal _ hkey hneed, AlgoId.tagLen_eq]
  by_cases halgo : key.algo = self.algo
  · simp only [halgo, ne_eq, not_true_eq_false, if_false]
    by_cases hnonce : nonce.length = 12
    · simp only [Gcm.Nonce.ofSlice_eq_some hnonce, hnonce, not_true_eq_false, if_false]
      by_cases hroom : out.length < plaintext.length + 16
      · simp only [hroom, if_true, Outcome.bind_err]
      · have hk := Gcm.Key.new_eq_some (self.variant_keyLen_of_algo hkey halgo)
        simp only [hroom, if_false, Outcome.bind_ok, hk, run_bind, run_addUsize hneed,
          sealArm_eq crate hk (Gcm.Nonce.ofSlice_eq_some hnonce)]
        exact AesGcm.run_encrypt_into crate _ _ _ aad plaintext out (by omega)
    · simp [Gcm.Nonce.ofSlice, hnonce]
  · simp [halgo]

theorem seal_run_malformed {key : KeyHandle} (hkey : ¬ key.WellFormed)
    (nonce aad plaintext out : Octets) :
    (self.seal_ crate key nonce aad plaintext).run out =
      if key.algo ≠ self.algo then .err (.algorithmMismatch self.algo key.algo) out
      else .err (.invalidKey self.algo.keyLen key.material.length) out := by
  rw [seal_, run_bind, self.checkInputs_run_malformed hkey]
  split <;> rfl

theorem wellFormed_of_seal {key : KeyHandle} {nonce aad plaintext out out' : Octets} {n : Nat}
    (h : (self.seal_ crate key nonce aad plaintext).run out = .ok n out') : key.WellFormed := by
  by_contra hkey
  rw [self.seal_run_malformed crate hkey] at h
  split at h <;> cases h

/-- The ciphertext is decrypted in `out`, so a rejected tag leaves there what the crate leaves. -/
theorem open_run {key : KeyHandle} (hkey : key.WellFormed) (nonce aad body out : Octets) :
    (self.open_ crate key nonce aad body).run out =
      AesGcm.openSpec crate self.algo self.supported
        (fun k n aad c t out => crate.openResidue k n aad c t ++ out.drop c.length)
        key nonce aad body out := by
  rw [open_eq]
  unfold AesGcm.openSpec
  by_cases hbody : body.length < 16
  · simp [hbody]
  rw [AlgoId.tagLen_eq, run_bind, run_failIf, if_neg hbody, Outcome.bind_ok, run_bind,
    run_subUsize (Nat.not_lt.mp hbody), Outcome.bind_ok, run_bind, checkInputs_run_open _ hkey,
    if_neg hbody]
  by_cases halgo : key.algo = self.algo
  · simp only [halgo, ne_eq, not_true_eq_false, if_false]
    by_cases hnonce : nonce.length = 12
    · simp only [Gcm.Nonce.ofSlice_eq_some hnonce, hnonce, not_true_eq_false, if_false]
      by_cases hroom : out.length < body.length - 16
      · simp only [hroom, if_true, Outcome.bind_err]
      · have hk := Gcm.Key.new_eq_some (self.variant_keyLen_of_algo hkey halgo)
        simp only [hroom, if_false, Outcome.bind_ok, hk,
          openArm_eq crate hk (Gcm.Nonce.ofSlice_eq_some hnonce)]
        exact run_decrypt_in_place crate _ _ aad body out (by omega) (by omega)
    · simp [Gcm.Nonce.ofSlice, hnonce]
  · simp [halgo]

theorem open_run_malformed {key : KeyHandle} (hkey : ¬ key.WellFormed)
    (nonce aad body out : Octets) :
    (self.open_ crate key nonce aad body).run out =
      if body.length < 16 then .err .authFailed out
      else if key.algo ≠ self.algo then .err (.algorithmMismatch self.algo key.algo) out
      else .err (.invalidKey self.algo.keyLen key.material.length) out := by
  rw [open_, AlgoId.tagLen_eq, run_bind, run_failIf]
  by_cases hbody : body.length < 16
  · rw [if_pos hbody, if_pos hbody, Outcome.bind_err]
  · rw [if_neg hbody, if_neg hbody, Outcome.bind_ok, run_bind,
      run_subUsize (Nat.not_lt.mp hbody), Outcome.bind_ok, run_bind,
      self.checkInputs_run_malformed hkey]
    split <;> rfl

theorem keeps_checkInputs (key : KeyHandle) (nonce : Octets) (bodyLen : Nat) (isSeal : Bool) :
    (self.checkInputs key nonce bodyLen isSeal).Keeps := by
  unfold checkInputs
  refine keeps_bind (keeps_failIf _ _) fun _ => keeps_bind (keeps_failIf _ _) fun _ =>
    keeps_bind (keeps_failIf _ _) fun _ => keeps_bind ?_ fun _ =>
    keeps_bind keeps_len fun _ => keeps_failIf _ _
  exact keeps_ite (keeps_addUsize _ _) (keeps_pure _)

theorem keeps_nonceInto (nonce : Octets) :
    Keeps (nonceInto nonce : Exec Octets CryptoError Gcm.Nonce) := by
  unfold nonceInto
  split
  · exact keeps_pure _
  · exact keeps_abort _

theorem keeps_seal (key : KeyHandle) (nonce aad plaintext : Octets) :
    (self.seal_ crate key nonce aad plaintext).Keeps := by
  rw [seal_eq]
  refine keeps_bind (self.keeps_checkInputs _ _ _ _) fun _ =>
    keeps_bind (keeps_copyFromSlice _ _ _) fun _ => keeps_bind ?_ fun _ =>
    keeps_bind (keeps_addUsize _ _) fun _ => keeps_bind (keeps_copyFromSlice _ _ _) fun _ =>
    keeps_pure _
  exact keeps_bind (keeps_okOr _ _) fun _ => keeps_bind (keeps_nonceInto _) fun _ =>
    keeps_mapErr (keeps_window (crate.keeps_sealInPlace _ _ _))

theorem keeps_open (key : KeyHandle) (nonce aad ciphertext : Octets) :
    (self.open_ crate key nonce aad ciphertext).Keeps := by
  rw [open_eq]
  refine keeps_bind (keeps_failIf _ _) fun _ => keeps_bind (keeps_subUsize _ _) fun _ =>
    keeps_bind (self.keeps_checkInputs _ _ _ _) fun _ => keeps_bind (keeps_slice _ _ _) fun _ =>
    keeps_bind (keeps_copyFromSlice _ _ _) fun _ => keeps_bind (keeps_slice _ _ _) fun _ =>
    keeps_bind (keeps_ite (keeps_pure _) (keeps_abort _)) fun _ => keeps_bind ?_ fun _ =>
    keeps_pure _
  exact keeps_bind (keeps_okOr _ _) fun _ => keeps_bind (keeps_nonceInto _) fun _ =>
    keeps_mapErr (keeps_window (crate.keeps_openInPlaceDetached _ _ _ _))

/-- `&dyn CryptoProvider`. -/
def toProvider : CryptoProvider where
  algorithm := self.algo
  seal_ := self.seal_ crate
  open_ := self.open_ crate
  seal_keeps := self.keeps_seal crate
  open_keeps := self.keeps_open crate

end AesGcmSwProvider

end SmartSfp
