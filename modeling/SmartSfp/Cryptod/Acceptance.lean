import SmartSfp.Cryptod.Rotation

/-!
# Acceptance — which rotations are accepted

The outcome of a `RotateKey` does not depend on the state: its algorithm byte and the length of its
material decide it, because over a primitive that round-trips the self-test of a well-formed key
passes.  Each refusal comes before the first store.
-/

namespace SmartSfp

namespace Cryptod

open Lib Exec Ipc

variable {crate : Gcm.Crate} {admissible : Octets → Prop} {σ : Type}

/-- The self-test of a key of its provider's algorithm and length passes. -/
theorem selfTest_run (hcorrect : crate.aead.Correct) (hseals : crate.aead.SealsOn admissible)
    (hadm : admissible selfTestText) {self : AesGcmRingProvider} {key : KeyHandle}
    (halgo : key.algo = self.algo) (hwf : key.WellFormed) (s : σ) :
    (selfTest (self.toProvider crate) key : Exec σ SelfTestError Unit).run s = .ok () s := by
  have hvariant : key.material.length = (self.algo.variant self.supported).keyLen := by
    rw [AlgoId.variant_keyLen, ← halgo]
    exact hwf
  obtain ⟨⟨c, t⟩, hct⟩ := hseals ⟨_, _, hvariant⟩ ⟨List.replicate 12 0, List.length_replicate⟩ []
    selfTestText hadm
  have hseal : AesGcm.sealSpec crate self.algo self.supported "ring seal" key
      (List.replicate 12 0) [] selfTestText (List.replicate 32 0) = .ok 32 (c ++ t) := by
    refine AesGcm.sealSpec_eq_ok_iff.mpr ⟨halgo, by decide, _, _, c, t,
      Gcm.Nonce.ofSlice_eq_some List.length_replicate, Gcm.Key.new_eq_some hvariant, hct, rfl, ?_⟩
    exact (List.append_nil _).symm
  have hopen : AesGcm.openSpec crate self.algo self.supported (fun _ _ _ _ _ out => out) key
      (List.replicate 12 0) [] ((c ++ t).take 32) (List.replicate 16 0) =
        .ok 16 (selfTestText ++ []) :=
    AesGcm.openSpec_of_sealSpec hcorrect hseal (by decide)
  -- what is opened is the 32 bytes the seal reports, which is all of them
  have hslice : (slice (c ++ t) 0 32 : Exec σ SelfTestError Octets) =
      pure ((c ++ t).take 32) := by
    obtain ⟨hc, ht⟩ := crate.sealDetached_length hct
    have hlen : 32 ≤ (c ++ t).length := by
      rw [List.length_append, hc, ht]
      decide
    rw [slice, if_pos ⟨Nat.zero_le 32, hlen⟩, List.drop_zero]
  rw [← self.seal_run crate key _ _ _ _ (by decide)] at hseal
  rw [← self.open_run crate] at hopen
  rw [selfTest_eq]
  simp only [self.toProvider_seal, self.toProvider_open, callTry, callWith, run_bind, hseal,
    Outcome.bind_ok, run_ofExcept_ok, run_pure, hslice, hopen, run_failIf]
  exact if_neg (not_not.mpr (List.append_nil _))

variable {p : RotateKeyParams} {algo : AlgoId}

/-- With a supported algorithm the length of the material decides. -/
theorem rotatePrepare_run_supported (hcorrect : crate.aead.Correct)
    (hseals : crate.aead.SealsOn admissible) (hadm : admissible selfTestText)
    (hfrom : AlgoId.fromU8 p.algo = some algo) (hsupported : algo ≠ .ozDst1105) (s : σ) :
    (rotatePrepare crate p).run s =
      if p.material.data.length = algo.keyLen then
        .ok ⟨⟨algo, hsupported⟩, algo, ⟨p.keyId, algo, p.material.data⟩⟩ s
      else
        .err (.error 422 (CryptoError.invalidKey algo.keyLen p.material.data.length).display)
          s := by
  -- what follows the choice of the provider is the same for both algorithms
  have hrest : (do
      let newKey ← ofExcept (fun e => Response.error 422 e.display)
        (KeyHandle.new p.keyId algo p.material.data)
      mapErr (fun e => Response.error 500 s!"new key/provider failed self-test: {e.display}")
        (selfTest (AesGcmRingProvider.toProvider crate ⟨algo, hsupported⟩) newKey)
      return (⟨⟨algo, hsupported⟩, algo, newKey⟩ : Commit) : Exec σ Response Commit).run s =
        if p.material.data.length = algo.keyLen then
          .ok ⟨⟨algo, hsupported⟩, algo, ⟨p.keyId, algo, p.material.data⟩⟩ s
        else
          .err (.error 422
            (CryptoError.invalidKey algo.keyLen p.material.data.length).display) s := by
    rw [run_bind]
    by_cases hlen : p.material.data.length = algo.keyLen
    · have hwf : (⟨p.keyId, algo, p.material.data⟩ : KeyHandle).WellFormed := hlen
      have hself : (selfTest (AesGcmRingProvider.toProvider crate ⟨algo, hsupported⟩)
          ⟨p.keyId, algo, p.material.data⟩).run s = .ok () s :=
        selfTest_run hcorrect hseals hadm rfl hwf s
      rw [KeyHandle.new_eq_ok_iff.mpr ⟨hlen, rfl⟩, run_ofExcept_ok, Outcome.bind_ok, run_bind,
        run_mapErr, hself, if_pos hlen]
      rfl
    · rw [KeyHandle.new, if_pos hlen, run_ofExcept_error, Outcome.bind_err, if_neg hlen]
  unfold rotatePrepare
  rw [hfrom, run_bind, run_okOr_some, Outcome.bind_ok]
  cases algo with
  | aes128Gcm => exact hrest
  | aes256Gcm => exact hrest
  | ozDst1105 => exact absurd rfl hsupported

theorem rotatePrepare_run_unknown (hfrom : AlgoId.fromU8 p.algo = none) (s : σ) :
    (rotatePrepare crate p).run s =
      .err (.error 422 s!"unknown algo: 0x{Wire.hexByte p.algo}") s := by
  unfold rotatePrepare
  rw [hfrom, run_bind, run_okOr_none, Outcome.bind_err]

theorem rotatePrepare_run_ozDst1105 (hfrom : AlgoId.fromU8 p.algo = some .ozDst1105) (s : σ) :
    (rotatePrepare crate p).run s =
      .err (.error 501 "O'z DSt 1105 provider not yet implemented") s := by
  unfold rotatePrepare
  rw [hfrom, run_bind, run_okOr_some, Outcome.bind_ok, run_bind, run_fail, Outcome.bind_err]

/-- The algorithm is one of the two implemented and the material has its length. -/
def Acceptable (p : RotateKeyParams) : Prop :=
  p.algo = 0x01 ∧ p.material.data.length = AlgoId.aes128Gcm.keyLen ∨
    p.algo = 0x02 ∧ p.material.data.length = AlgoId.aes256Gcm.keyLen

/-- The code of a refusal. -/
def refusalCode (algo : UInt8) : UInt32 := if algo = 0x10 then 501 else 422

theorem acceptable_iff (hfrom : AlgoId.fromU8 p.algo = some algo) :
    Acceptable p ↔ algo ≠ .ozDst1105 ∧ p.material.data.length = algo.keyLen := by
  have hbyte := AlgoId.fromU8_eq_some_iff.mp hfrom
  unfold Acceptable
  rw [hbyte]
  cases algo with
  | aes128Gcm => simp [AlgoId.toU8]
  | aes256Gcm => simp [AlgoId.toU8]
  | ozDst1105 => simp [AlgoId.toU8]

theorem refusalCode_of_supported (hfrom : AlgoId.fromU8 p.algo = some algo)
    (hsupported : algo ≠ .ozDst1105) : refusalCode p.algo = 422 := by
  refine if_neg fun hbyte => hsupported ?_
  rw [hbyte] at hfrom
  exact (Option.some.inj hfrom).symm

/-- A rotation is prepared exactly when it is acceptable, and refused with its code otherwise. -/
theorem rotatePrepare_cases (hcorrect : crate.aead.Correct)
    (hseals : crate.aead.SealsOn admissible) (hadm : admissible selfTestText)
    (p : RotateKeyParams) (s : σ) :
    (Acceptable p ∧ ∃ c, (rotatePrepare crate p).run s = .ok c s) ∨
    (¬ Acceptable p ∧ ∃ message,
      (rotatePrepare crate p).run s = .err (.error (refusalCode p.algo) message) s) := by
  cases hfrom : AlgoId.fromU8 p.algo with
  | none =>
    refine .inr ⟨?_, s!"unknown algo: 0x{Wire.hexByte p.algo}", ?_⟩
    · rintro (⟨hbyte, -⟩ | ⟨hbyte, -⟩) <;> rw [hbyte] at hfrom <;> cases hfrom
    · rw [rotatePrepare_run_unknown hfrom]
      have hcode : refusalCode p.algo = 422 := by
        refine if_neg fun hbyte => ?_
        rw [hbyte] at hfrom
        cases hfrom
      rw [hcode]
  | some algo =>
    rw [acceptable_iff hfrom]
    by_cases hsupported : algo = .ozDst1105
    · subst hsupported
      refine .inr ⟨fun h => h.1 rfl, "O'z DSt 1105 provider not yet implemented", ?_⟩
      rw [rotatePrepare_run_ozDst1105 hfrom, AlgoId.fromU8_eq_some_iff.mp hfrom]
      rfl
    · have hrun := rotatePrepare_run_supported hcorrect hseals hadm hfrom hsupported s
      by_cases hlen : p.material.data.length = algo.keyLen
      · rw [if_pos hlen] at hrun
        exact .inl ⟨⟨hsupported, hlen⟩, _, hrun⟩
      · rw [if_neg hlen] at hrun
        rw [← refusalCode_of_supported hfrom hsupported] at hrun
        exact .inr ⟨fun h => hlen h.2, _, hrun⟩

/-- `RotateKey` in any state, over a primitive that round-trips: it is answered `Ok` exactly when it
is acceptable, and then provider, algorithm and key are those of the request and the counters are
as before; otherwise it is answered with the error its algorithm byte decides and the state is as
before. -/
theorem rotateKey_acceptance (crate : Gcm.Crate) (admissible : Octets → Prop)
    (hcorrect : crate.aead.Correct) (hseals : crate.aead.SealsOn admissible)
    (hadm : admissible selfTestText) (s : CryptodState) (elapsed : UInt64) (p : RotateKeyParams) :
    ∃ response t, (handle crate elapsed (.rotateKey p)).run s = .ok response t ∧
      (response = .ok ↔ Acceptable p) ∧
      (response = .ok → InForce t p ∧ t.packetsSealed = s.packetsSealed ∧
        t.packetsOpened = s.packetsOpened ∧ t.cryptoErrors = s.cryptoErrors) ∧
      (response ≠ .ok → t = s ∧ ∃ message, response = .error (refusalCode p.algo) message) := by
  obtain ⟨hacceptable, c, hprepare⟩ | ⟨hrefused, message, hprepare⟩ :=
    rotatePrepare_cases hcorrect hseals hadm p s
  · obtain ⟨-, hfor⟩ := rotatePrepare_eq_ok crate hprepare
    have hrun : (handle crate elapsed (.rotateKey p)).run s = .ok .ok (s.commit c) := by
      refine run_returning_ok ?_
      rw [run_bind, hprepare]
      rfl
    refine ⟨.ok, s.commit c, hrun, iff_of_true rfl hacceptable, fun _ => ⟨?_, rfl, rfl, rfl⟩,
      fun h => absurd rfl h⟩
    exact ⟨c.newAlgo, hfor.algo_eq, hfor.provider_eq, rfl, congrArg some hfor.key_eq⟩
  · have hrun : (handle crate elapsed (.rotateKey p)).run s =
        .ok (.error (refusalCode p.algo) message) s := by
      refine run_returning_err ?_
      rw [run_bind, hprepare]
      rfl
    refine ⟨_, s, hrun, iff_of_false (by simp) hrefused, fun h => ?_, fun _ => ⟨rfl, message, rfl⟩⟩
    cases h

theorem rotateKey_acceptance_kat :
    ∃ response t, (handle Gcm.kat 0 (.rotateKey Kat.rotate256)).run Kat.fresh = .ok response t ∧
      (response = .ok ↔ Acceptable Kat.rotate256) ∧
      (response = .ok → InForce t Kat.rotate256 ∧ t.packetsSealed = 0 ∧ t.packetsOpened = 0 ∧
        t.cryptoErrors = 0) ∧
      (response ≠ .ok → t = Kat.fresh ∧ ∃ message, response = .error 422 message) :=
  rotateKey_acceptance Gcm.kat (fun _ => True) Gcm.kat_correct (Gcm.ofTable_sealsOn _ _ _) trivial
    Kat.fresh 0 Kat.rotate256

end Cryptod

end SmartSfp
