import SmartSfp.Crypto.Ring
import SmartSfp.Crypto.Sw

/-!
# Refusal — what a provider leaves in its buffer when it returns an error

Every check comes before the first write, so only the primitive's own refusal can leave a trace: of
a plaintext in both providers, of a ciphertext in the one that decrypts in the caller's buffer.
-/

namespace SmartSfp

open Lib Exec

/-- The two AES providers over an implementation of AES-GCM. -/
inductive CryptoProvider.Aes (crate : Gcm.Crate) : CryptoProvider → Prop
  | ring (self : AesGcmRingProvider) : Aes crate (self.toProvider crate)
  | sw (self : AesGcmSwProvider) : Aes crate (self.toProvider crate)

/-- A decryption in place leaves its buffer as given when the tag does not verify. -/
def Gcm.Crate.LeavesCiphertext (crate : Gcm.Crate) : Prop :=
  ∀ k n a c t, crate.openDetached k n a c t = none → crate.openResidue k n a c t = c

/-- The refusal of a seal by the primitive itself. -/
def CryptoError.OfPrimitive : CryptoError → Prop
  | .providerUnavailable _ => True
  | _ => False

namespace AesGcm

variable {crate : Gcm.Crate} {algo : AlgoId} {supported : algo ≠ .ozDst1105} {key : KeyHandle}
  {nonce aad plaintext body out out' : Octets} {e : CryptoError}

/-- A seal fails at a check, or the primitive refuses and leaves what it leaves. -/
theorem sealSpec_eq_err {message : String}
    (h : sealSpec crate algo supported message key nonce aad plaintext out = .err e out') :
    (¬ e.OfPrimitive ∧ out' = out) ∨
    (e.OfPrimitive ∧ ∃ k n, k.material = key.material ∧ n.bytes = nonce ∧
      crate.sealDetached k n aad plaintext = none ∧
      out' = crate.sealResidue k n aad plaintext ++ out.drop plaintext.length) := by
  unfold sealSpec at h
  split at h
  · cases h
    exact .inl ⟨id, rfl⟩
  · split at h
    · cases h
      exact .inl ⟨id, rfl⟩
    · rename_i n hn
      split at h
      · cases h
        exact .inl ⟨id, rfl⟩
      · split at h
        · cases h
          exact .inl ⟨id, rfl⟩
        · rename_i k hk
          split at h
          · rename_i hrefused
            cases h
            exact .inr ⟨trivial, k, n, Gcm.Key.material_of_new hk, Gcm.Nonce.bytes_of_ofSlice hn,
              hrefused, rfl⟩
          · cases h

/-- An open fails at a check, or the tag does not verify and the provider leaves what it leaves. -/
theorem openSpec_eq_err {leave : Gcm.Key → Gcm.Nonce → (aad c t out : Octets) → Octets}
    (h : openSpec crate algo supported leave key nonce aad body out = .err e out') :
    (¬ (e = .authFailed ∧ 16 ≤ body.length) ∧ out' = out) ∨
    (e = .authFailed ∧ 16 ≤ body.length ∧ ∃ k n,
      crate.openDetached k n aad (body.take (body.length - 16)) (body.drop (body.length - 16)) =
        none ∧
      out' = leave k n aad (body.take (body.length - 16)) (body.drop (body.length - 16)) out) := by
  unfold openSpec at h
  split at h
  · rename_i hshort
    cases h
    exact .inl ⟨fun hlen => by omega, rfl⟩
  · rename_i hbody
    split at h
    · cases h
      exact .inl ⟨by simp, rfl⟩
    · split at h
      · cases h
        exact .inl ⟨by simp, rfl⟩
      · split at h
        · cases h
          exact .inl ⟨by simp, rfl⟩
        · split at h
          · cases h
            exact .inl ⟨by simp, rfl⟩
          · dsimp only at h
            split at h
            · rename_i hrefused
              cases h
              exact .inr ⟨rfl, Nat.not_lt.mp hbody, _, _, hrefused, rfl⟩
            · cases h

end AesGcm

/-- Either provider's seal fails at a check and leaves the buffer alone, or the primitive refuses
and its residue stands where the plaintext was copied. -/
theorem CryptoProvider.Aes.seal_eq_err {crate : Gcm.Crate} {provider : CryptoProvider}
    (haes : Aes crate provider) {key : KeyHandle} {nonce aad out out' : Octets}
    {plaintext : Slice UInt8} {e : CryptoError}
    (h : (provider.seal_ key nonce aad plaintext.data).run out = .err e out') :
    (¬ e.OfPrimitive ∧ out' = out) ∨
    (e.OfPrimitive ∧ ∃ k n, k.material = key.material ∧ n.bytes = nonce ∧
      crate.sealDetached k n aad plaintext.data = none ∧
      out' = crate.sealResidue k n aad plaintext.data ++ out.drop plaintext.data.length) := by
  cases haes with
  | ring self =>
    change (self.seal_ crate key nonce aad plaintext.data).run out = _ at h
    rw [self.seal_run crate _ _ _ _ _ plaintext.length_le] at h
    exact AesGcm.sealSpec_eq_err h
  | sw self =>
    change (self.seal_ crate key nonce aad plaintext.data).run out = _ at h
    by_cases hkey : key.WellFormed
    · rw [self.seal_run crate hkey _ _ _ _ plaintext.length_le] at h
      exact AesGcm.sealSpec_eq_err h
    · rw [self.seal_run_malformed crate hkey] at h
      split at h <;> cases h <;> exact .inl ⟨id, rfl⟩

/-- The provider that opens a copy never touches the buffer on an error. -/
theorem AesGcmRingProvider.open_eq_err {crate : Gcm.Crate} {self : AesGcmRingProvider}
    {key : KeyHandle} {nonce aad body out out' : Octets} {e : CryptoError}
    (h : (self.open_ crate key nonce aad body).run out = .err e out') : out' = out := by
  rw [self.open_run] at h
  obtain ⟨-, rfl⟩ | ⟨-, -, -, -, -, rfl⟩ := AesGcm.openSpec_eq_err h <;> rfl

/-- The provider that opens in place leaves the ciphertext it copied when the tag does not verify,
and nothing on any other error. -/
theorem AesGcmSwProvider.open_eq_err {crate : Gcm.Crate} (hleaves : crate.LeavesCiphertext)
    {self : AesGcmSwProvider} {key : KeyHandle} {nonce aad body out out' : Octets} {e : CryptoError}
    (h : (self.open_ crate key nonce aad body).run out = .err e out') :
    out' = if e = .authFailed ∧ 16 ≤ body.length then
      body.take (body.length - 16) ++ out.drop (body.length - 16) else out := by
  by_cases hkey : key.WellFormed
  · rw [self.open_run crate hkey] at h
    obtain ⟨hauth, rfl⟩ | ⟨rfl, hlen, k, n, hrefused, rfl⟩ := AesGcm.openSpec_eq_err h
    · rw [if_neg hauth]
    · have hct : (body.take (body.length - 16)).length = body.length - 16 := by
        rw [List.length_take]
        omega
      rw [if_pos ⟨rfl, hlen⟩, hleaves k n _ _ _ hrefused, hct]
  · rw [self.open_run_malformed crate hkey] at h
    split at h
    · cases h
      rw [if_neg fun hauth => by omega]
    · split at h <;> cases h <;> simp

end SmartSfp
