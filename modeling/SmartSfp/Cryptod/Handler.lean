import SmartSfp.Cryptod.State

/-!
# Handler — what the handler bodies do

One equation for each body over a `ring` provider.  None of them panics, whatever key and provider
meet in it.
-/

namespace SmartSfp

namespace Cryptod

open Lib Exec Ipc

variable {σ : Type} (crate : Gcm.Crate)

/-! ## Rotation -/

/-- The self-test with its buffers at their sizes. -/
theorem selfTest_eq (provider : CryptoProvider) (key : KeyHandle) :
    (selfTest provider key : Exec σ SelfTestError Unit) = (do
      let (n, sealed) ← callTry .crypto (List.replicate 32 0)
        (provider.seal_ key (List.replicate 12 0) [] selfTestText)
      let body ← slice sealed 0 n
      let (_, back) ← callTry .crypto (List.replicate 16 0)
        (provider.open_ key (List.replicate 12 0) [] body)
      failIf (back ≠ selfTestText) .mismatch) := by
  have hvec (n : Nat) (h : n ≤ isizeMax) :
      (vec 0 n : Exec σ SelfTestError Octets) = pure (List.replicate n 0) := by
    rw [vec, if_pos h]
  have hadd : (addUsize 16 16 : Exec σ SelfTestError Nat) = pure 32 := rfl
  have hpt : selfTestText.length = 16 := rfl
  simp only [selfTest, AlgoId.nonceLen_eq, AlgoId.tagLen_eq, hpt, hadd, pure_bind,
    hvec 12 (by decide), hvec 16 (by decide), hvec 32 (by decide)]

theorem selfTest_detached (self : AesGcmRingProvider) (key : KeyHandle) :
    Detached (selfTest (self.toProvider crate) key : Exec σ SelfTestError Unit) := by
  have hpt : selfTestText.length = 16 := rfl
  have hseal (out : Octets) := self.seal_run crate key (List.replicate 12 0) [] selfTestText out
    (by decide)
  rw [selfTest_eq]
  refine detached_callTry_bind _ ?_ fun n sealed hsealed => ?_
  · rw [self.toProvider_seal, hseal]
    exact AesGcm.sealSpec_returns _ _ _ _ _ _
  · have hn : n ≤ sealed.length := by
      have hkeeps := self.keeps_seal crate key (List.replicate 12 0) [] selfTestText
        (List.replicate 32 0)
      rw [self.toProvider_seal] at hsealed
      rw [hsealed] at hkeeps
      rw [hseal] at hsealed
      obtain ⟨hcount, -⟩ := AesGcm.sealSpec_writes hsealed
      have hlen : sealed.length = 32 := hkeeps
      rw [AlgoId.tagLen_eq, hpt] at hcount
      omega
    dsimp only
    rw [slice, if_pos ⟨Nat.zero_le n, hn⟩, pure_bind]
    refine detached_callTry_bind _ ?_ fun m back _ => detached_failIf _ _
    rw [self.toProvider_open, self.open_run]
    exact AesGcm.openSpec_returns _ _ _ _ _ _

/-- What a rotation is about to store belongs to the request. -/
structure Commit.For (c : Commit) (p : RotateKeyParams) : Prop where
  algo_eq : AlgoId.fromU8 p.algo = some c.newAlgo
  provider_eq : c.newProvider.algo = c.newAlgo
  key_eq : c.newKey = ⟨p.keyId, c.newAlgo, p.material.data⟩
  wellFormed : c.newKey.WellFormed

theorem rotatePrepare_detached (p : RotateKeyParams) :
    Detached (rotatePrepare crate p : Exec σ Response Commit) := by
  refine detached_bind (detached_okOr _ _) fun newAlgo => detached_bind ?_ fun newProvider =>
    detached_bind (detached_ofExcept _ _) fun newKey =>
    detached_bind (detached_mapErr _ (selfTest_detached crate newProvider newKey)) fun _ =>
    detached_pure _
  split
  · exact detached_ofExcept _ _
  · exact detached_ofExcept _ _
  · exact detached_fail _

/-- Before its first store a rotation holds what its request asks for. -/
theorem rotatePrepare_eq_ok {p : RotateKeyParams} {c : Commit} {s t : σ}
    (h : (rotatePrepare crate p : Exec σ Response Commit).run s = .ok c t) : t = s ∧ c.For p := by
  refine ⟨(rotatePrepare_detached crate p).state_eq_of_ok h, ?_⟩
  unfold rotatePrepare at h
  obtain ⟨newAlgo, s₁, halgo, h⟩ := Outcome.bind_eq_ok_iff.mp h
  obtain ⟨newProvider, s₂, hprovider, h⟩ := Outcome.bind_eq_ok_iff.mp h
  obtain ⟨newKey, s₃, hkey, h⟩ := Outcome.bind_eq_ok_iff.mp h
  obtain ⟨_, s₄, hself, h⟩ := Outcome.bind_eq_ok_iff.mp h
  cases h
  have hfrom : AlgoId.fromU8 p.algo = some newAlgo := by
    cases hfrom : AlgoId.fromU8 p.algo with
    | none =>
      rw [hfrom] at halgo
      cases halgo
    | some a =>
      rw [hfrom] at halgo
      cases halgo
      rfl
  have hnew : KeyHandle.new p.keyId newAlgo p.material.data = .ok newKey := by
    cases hnew : KeyHandle.new p.keyId newAlgo p.material.data with
    | error e =>
      rw [hnew] at hkey
      cases hkey
    | ok k =>
      rw [hnew] at hkey
      cases hkey
      rfl
  refine ⟨hfrom, ?_, (KeyHandle.new_eq_ok_iff.mp hnew).2, KeyHandle.wellFormed_of_new hnew⟩
  cases newAlgo with
  | aes128Gcm =>
    cases hprovider
    rfl
  | aes256Gcm =>
    cases hprovider
    rfl
  | ozDst1105 => cases hprovider

/-- The request passes validation and self-test, and would store `c`. -/
def Accepted (p : RotateKeyParams) (c : Commit) : Prop :=
  ∃ s, (rotatePrepare crate p : Exec CryptodState Response Commit).run s = .ok c s

theorem Accepted.commit_for {p : RotateKeyParams} {c : Commit} (h : Accepted crate p c) :
    c.For p := by
  obtain ⟨s, hs⟩ := h
  exact (rotatePrepare_eq_ok crate hs).2

/-- A rotation that is refused is answered with an error. -/
theorem rotatePrepare_eq_err {p : RotateKeyParams} {r : Response} {s t : σ}
    (h : (rotatePrepare crate p : Exec σ Response Commit).run s = .err r t) :
    t = s ∧ ∃ code message, r = .error code message := by
  refine ⟨(rotatePrepare_detached crate p).state_eq_of_err h, ?_⟩
  unfold rotatePrepare at h
  rw [run_bind] at h
  cases hfrom : AlgoId.fromU8 p.algo with
  | none =>
    rw [hfrom] at h
    cases h
    exact ⟨_, _, rfl⟩
  | some newAlgo =>
    rw [hfrom, run_okOr_some, Outcome.bind_ok] at h
    have hrest (newProvider : AesGcmRingProvider) (h : (do
        let newKey ← ofExcept (fun e => Response.error 422 e.display)
          (KeyHandle.new p.keyId newAlgo p.material.data)
        mapErr (fun e => Response.error 500 s!"new key/provider failed self-test: {e.display}")
          (selfTest (newProvider.toProvider crate) newKey)
        return (⟨newProvider, newAlgo, newKey⟩ : Commit) : Exec σ Response Commit).run s =
          .err r t) : ∃ code message, r = .error code message := by
      rw [run_bind] at h
      cases hnew : KeyHandle.new p.keyId newAlgo p.material.data with
      | error e =>
        rw [hnew] at h
        cases h
        exact ⟨_, _, rfl⟩
      | ok newKey =>
        rw [hnew, run_ofExcept_ok, Outcome.bind_ok, run_bind, run_mapErr] at h
        rcases selfTest_detached (σ := σ) crate newProvider newKey with ⟨a, ha⟩ | ⟨e, he⟩
        · rw [ha] at h
          cases h
        · rw [he] at h
          cases h
          exact ⟨_, _, rfl⟩
    cases newAlgo with
    | aes128Gcm => exact hrest _ h
    | aes256Gcm => exact hrest _ h
    | ozDst1105 =>
      cases h
      exact ⟨_, _, rfl⟩

/-! ## The bodies under the provider lock -/

variable (self : AesGcmRingProvider) (key : KeyHandle)

/-- The answer to an encryption whose nonce has the wrong length. -/
def nonceRefusal (got : Nat) (algo : AlgoId) : Response :=
  .error 422 s!"nonce length mismatch: got {got}, want {algo.nonceLen} for {algo.debug}"

theorem sealRequest_run_nonce (provider : CryptoProvider) {p : EncryptParams}
    (hn : p.nonce.data.length ≠ 12) (st : CryptodState) :
    (sealRequest provider key p).run st =
      .err (nonceRefusal p.nonce.data.length provider.algorithm) st := by
  simp [sealRequest, nonceRefusal, hn]

theorem sealRequest_run {p : EncryptParams} (hn : p.nonce.data.length = 12) (st : CryptodState) :
    (sealRequest (self.toProvider crate) key p).run st =
      match Wire.ringSealFrame crate self key ⟨p.nonce.data, hn⟩ p.plaintext.data with
      | .ok frame => .ok (.ciphertext frame) st.countSealed
      | .error e =>
        .ok (.error 500 s!"seal failed: {(Wire.WireError.crypto e).display}") st.countError := by
  have hfit := p.plaintext.length_le
  have hneed := Wire.add_lt_usizeSize hfit
  have hroom := p.plaintext.length_add_le
  have hcount : 12 + 12 + p.plaintext.data.length + 16 = p.plaintext.data.length + 40 := by omega
  obtain ⟨left, hseal⟩ := Wire.seal_run_ring crate self key hn hfit
    (List.replicate (p.plaintext.data.length + 40) 0) List.length_replicate
  simp only [sealRequest, AlgoId.nonceLen_eq, AlgoId.tagLen_eq, hn, ne_eq, not_true_eq_false,
    run_bind, run_failIf, if_false, Outcome.bind_ok, Wire.run_frameLen hneed, hcount,
    run_vec hroom, callWith, hseal]
  cases Wire.ringSealFrame crate self key ⟨p.nonce.data, hn⟩ p.plaintext.data with
  | error e => rfl
  | ok frame =>
    simp only [Outcome.bind_ok, run_bind]
    rfl

/-- The code of the answer to a frame that does not open. -/
def openCode : Wire.WireError → UInt32
  | .crypto .authFailed => 401
  | _ => 422

theorem openRequest_run (p : DecryptParams) (st : CryptodState) :
    (openRequest (self.toProvider crate) key p).run st =
      match Wire.ringOpenFrame crate self key p.frame.data with
      | .ok plaintext => .ok (.plaintext plaintext) st.countOpened
      | .error e => .ok (.error (openCode e) s!"open failed: {e.display}") st.countError := by
  obtain ⟨left, hopen⟩ := Wire.open_run_ring crate self key p.frame.data
    (List.replicate p.frame.data.length 0) List.length_replicate
  simp only [openRequest, run_bind, run_vec p.frame.length_le, Outcome.bind_ok, callWith, hopen]
  cases Wire.ringOpenFrame crate self key p.frame.data with
  | error e =>
    simp only [Outcome.bind_ok, run_bind, run_modify, run_pure]
    rfl
  | ok plaintext =>
    simp only [Outcome.bind_ok, run_bind, run_modify, run_pure, List.take_left]

/-- `out.truncate(n)` is given no more than the buffer holds. -/
theorem truncate_le {p : DecryptParams} {n : Nat} {out : Octets}
    (h : (Wire.open_ (self.toProvider crate) key p.frame.data).run
      (List.replicate p.frame.data.length 0) = .ok n out) : n ≤ out.length := by
  obtain ⟨left, hopen⟩ := Wire.open_run_ring crate self key p.frame.data
    (List.replicate p.frame.data.length 0) List.length_replicate
  rw [hopen] at h
  cases hplain : Wire.ringOpenFrame crate self key p.frame.data with
  | error e =>
    rw [hplain] at h
    cases h
  | ok plaintext =>
    rw [hplain] at h
    cases h
    rw [List.length_append]
    omega

end Cryptod

end SmartSfp
