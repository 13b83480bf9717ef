import SmartSfp.Crypto.Kat
import SmartSfp.Crypto.Refusal
import SmartSfp.Wire.Frame

/-!
# Refusal — what a failed `open_` or `seal_` leaves in the output buffer

A failed open leaves the buffer as it was, unless the provider decrypts in place and got as far as
the tag: then the ciphertext stands in the buffer.  A failed seal leaves the frame built so far: all
of the header and nonce once the provider was called, and the primitive's residue if it refused.
-/

namespace SmartSfp

open Lib Exec

namespace Wire

namespace Kat

open Gcm.Kat

def sw256 : AesGcmSwProvider := ⟨.aes256Gcm, AlgoId.aes256Gcm_ne⟩

def ring256 : AesGcmRingProvider := ⟨.aes256Gcm, AlgoId.aes256Gcm_ne⟩

/-- `frame256` with another tag. -/
def forged : Octets := header256 ++ nonce ++ ([0xdd, 0x93] ++ List.replicate 16 0xff)

end Kat

/-! ## Opening -/

section

variable {crate : Gcm.Crate} {key : KeyHandle} {frame out out' : Octets}

/-- `open_` fails at a check of its own, or in the provider. -/
theorem open_eq_err {provider : CryptoProvider} {e : WireError}
    (h : (open_ provider key frame).run out = .err e out') :
    (e ≠ .crypto .authFailed ∧ out' = out) ∨
    ∃ parts ce, parse provider.algorithm frame = .ok parts ∧ e = .crypto ce ∧
      (provider.open_ key parts.nonce parts.aad parts.body).run out = .err ce out' := by
  rw [open_run] at h
  cases hparse : parse provider.algorithm frame with
  | error e' =>
    rw [hparse] at h
    cases h
    refine .inl ⟨?_, rfl⟩
    rintro rfl
    exact ofLayout_of_parse hparse
  | ok parts =>
    rw [hparse] at h
    simp only at h
    split at h
    · cases h
      exact .inl ⟨by simp, rfl⟩
    · cases hcall : (provider.open_ key parts.nonce parts.aad parts.body).run out with
      | ok n t =>
        rw [hcall] at h
        cases h
      | err ce t =>
        rw [hcall] at h
        cases h
        exact .inr ⟨parts, ce, rfl, rfl, hcall⟩
      | panic p =>
        rw [hcall] at h
        cases h

/-- What each call leaves in the buffer it was given when it returns an error. -/
theorem open_refused (hleaves : crate.LeavesCiphertext) (key : KeyHandle) (out out' : Octets) :
    (∀ (self : AesGcmRingProvider) (nonce aad body : Octets) (e : CryptoError),
      (self.open_ crate key nonce aad body).run out = .err e out' → out' = out) ∧
    (∀ (self : AesGcmSwProvider) (nonce aad body : Octets) (e : CryptoError),
      (self.open_ crate key nonce aad body).run out = .err e out' →
        out' = if e = .authFailed ∧ 16 ≤ body.length then
          body.take (body.length - 16) ++ out.drop (body.length - 16) else out) ∧
    (∀ (self : AesGcmRingProvider) (frame : Octets) (e : WireError),
      (open_ (self.toProvider crate) key frame).run out = .err e out' → out' = out) ∧
    (∀ (self : AesGcmSwProvider) (frame : Octets) (e : WireError),
      (open_ (self.toProvider crate) key frame).run out = .err e out' →
        out' = if e = .crypto .authFailed then
          (frame.drop 24).take (frame.length - 40) ++ out.drop (frame.length - 40) else out) := by
  refine ⟨fun _ _ _ _ _ h => AesGcmRingProvider.open_eq_err h,
    fun _ _ _ _ _ h => AesGcmSwProvider.open_eq_err hleaves h, ?_, ?_⟩
  · intro self frame e h
    obtain ⟨-, rfl⟩ | ⟨parts, ce, -, -, hcall⟩ := open_eq_err h
    · rfl
    · exact AesGcmRingProvider.open_eq_err hcall
  · intro self frame e h
    obtain ⟨hauth, rfl⟩ | ⟨parts, ce, hparse, rfl, hcall⟩ := open_eq_err h
    · rw [if_neg hauth]
    · obtain ⟨hframe, haad, hn, hbody⟩ := parse_eq_ok hparse
      have hfront : (parts.aad ++ parts.nonce).length = 24 := by
        rw [List.length_append, haad, hn]
      have hrest : frame.drop 24 = parts.body := by
        rw [hframe, ← hfront, List.drop_left]
      have hlen : frame.length - 40 = parts.body.length - 16 := by
        rw [← hrest, List.length_drop]
        omega
      have hleft := AesGcmSwProvider.open_eq_err hleaves hcall
      simp only [hbody, and_true] at hleft
      rw [hrest, hlen, hleft]
      simp only [WireError.crypto.injEq]

end

theorem kat_leavesCiphertext : Gcm.kat.LeavesCiphertext := fun _ _ _ _ _ _ => rfl

open Gcm.Kat Kat in
/-- The ciphertext of a forged frame stays in the buffer of the provider that decrypts in place. -/
theorem open_refused_leaves_ciphertext :
    Gcm.kat.LeavesCiphertext ∧
    (sw256.open_ Gcm.kat handle256 nonce header256 ([0xdd, 0x93] ++ List.replicate 16 0xff)).run
      [0, 0] = .err .authFailed [0xdd, 0x93] ∧
    (open_ (sw256.toProvider Gcm.kat) handle256 forged).run [0, 0] =
      .err (.crypto .authFailed) [0xdd, 0x93] :=
  ⟨kat_leavesCiphertext, by decide, by decide⟩

open Gcm.Kat Kat in
theorem open_refused_kat :
    (ring256.open_ Gcm.kat handle256 nonce header256 [1, 2, 3]).run [0, 0] =
      .err .authFailed [0, 0] ∧
    ([0, 0] : Octets) = [0, 0] ∧
    ([0xdd, 0x93] : Octets) = (forged.drop 24).take (forged.length - 40) ++
      ([0, 0] : Octets).drop (forged.length - 40) :=
  have hrefused := open_refused kat_leavesCiphertext handle256 [0, 0]
  ⟨by decide, (hrefused [0, 0]).1 ring256 nonce header256 [1, 2, 3] .authFailed (by decide),
    (hrefused [0xdd, 0x93]).2.2.2 sw256 forged (.crypto .authFailed) (by decide)⟩

/-! ## Sealing -/

section

variable {crate : Gcm.Crate} {provider : CryptoProvider} {key : KeyHandle} {keyId : UInt32}
  {nonce out out' : Octets} {flags : UInt8} {plaintext : Slice UInt8}

/-- `seal_` fails at a check of its own, or in the provider once header and nonce are written. -/
theorem seal_eq_err {e : WireError}
    (h : (seal_ provider key keyId nonce flags plaintext.data).run out = .err e out') :
    ((∀ ce, e ≠ .crypto ce) ∧ out' = out) ∨
    ∃ ce front body body' slack, e = .crypto ce ∧ front.length = 24 ∧
      out = front ++ body ++ slack ∧ body.length = plaintext.data.length + 16 ∧
      (provider.seal_ key nonce (sealHeader provider.algorithm keyId flags).bytes
        plaintext.data).run body = .err ce body' ∧
      out' = (sealHeader provider.algorithm keyId flags).bytes ++ nonce ++ body' ++ slack := by
  by_cases hn : nonce.length = 12
  · by_cases hroom : out.length < plaintext.data.length + 40
    · rw [seal_run_small hn plaintext.length_le hroom] at h
      cases h
      exact .inl ⟨by simp, rfl⟩
    · obtain ⟨front, rest, rfl, hfront, -⟩ := exists_split (n := 24) (s := out) (by omega)
      rw [List.length_append] at hroom
      obtain ⟨body, slack, rfl, hbody, -⟩ :=
        exists_split (n := plaintext.data.length + 16) (s := rest) (by omega)
      rw [← List.append_assoc,
        seal_run provider key keyId flags slack hn plaintext.length_le hfront hbody] at h
      cases hcall : (provider.seal_ key nonce (sealHeader provider.algorithm keyId flags).bytes
          plaintext.data).run body with
      | ok written t =>
        rw [hcall] at h
        simp only [Outcome.mapState_ok, Outcome.mapErr_ok, Outcome.bind_ok, addUsize] at h
        split at h <;> cases h
      | err ce body' =>
        rw [hcall] at h
        cases h
        exact .inr ⟨ce, front, body, body', slack, rfl, hfront, (List.append_assoc ..).symm, hbody,
          hcall, rfl⟩
      | panic p =>
        rw [hcall] at h
        cases h
  · rw [seal_run_nonce hn] at h
    cases h
    exact .inl ⟨by simp, rfl⟩

/-- What each call leaves in the buffer it was given when it returns an error. -/
theorem seal_refused (haes : CryptoProvider.Aes crate provider) (key : KeyHandle) (nonce : Octets)
    (plaintext : Slice UInt8) (out out' : Octets) :
    (∀ (aad : Octets) (e : CryptoError),
      (provider.seal_ key nonce aad plaintext.data).run out = .err e out' →
        (¬ e.OfPrimitive ∧ out' = out) ∨
        (e.OfPrimitive ∧ ∃ k n, k.material = key.material ∧ n.bytes = nonce ∧
          crate.sealDetached k n aad plaintext.data = none ∧
          out' = crate.sealResidue k n aad plaintext.data ++ out.drop plaintext.data.length)) ∧
    (∀ (keyId : UInt32) (flags : UInt8) (e : WireError),
      (seal_ provider key keyId nonce flags plaintext.data).run out = .err e out' →
        let header := (sealHeader provider.algorithm keyId flags).bytes
        ((∀ ce, e ≠ .crypto ce) ∧ out' = out) ∨
        (∃ ce, e = .crypto ce ∧ ¬ ce.OfPrimitive ∧ out' = header ++ nonce ++ out.drop 24) ∨
        (∃ ce k n, e = .crypto ce ∧ ce.OfPrimitive ∧ k.material = key.material ∧ n.bytes = nonce ∧
          crate.sealDetached k n header plaintext.data = none ∧
          out' = header ++ nonce ++ crate.sealResidue k n header plaintext.data ++
            out.drop (24 + plaintext.data.length))) := by
  refine ⟨fun _ _ h => haes.seal_eq_err h, fun keyId flags e h => ?_⟩
  obtain hown | ⟨ce, front, body, body', slack, rfl, hfront, rfl, hbody, hcall, rfl⟩ :=
    seal_eq_err h
  · exact .inl hown
  · have hdrop : (front ++ body ++ slack).drop 24 = body ++ slack := by
      rw [List.append_assoc, ← hfront, List.drop_left]
    obtain ⟨hcheck, rfl⟩ | ⟨hprimitive, k, n, hk, hn, hrefused, rfl⟩ := haes.seal_eq_err hcall
    · refine .inr (.inl ⟨ce, rfl, hcheck, ?_⟩)
      rw [hdrop, List.append_assoc]
    · refine .inr (.inr ⟨ce, k, n, rfl, hprimitive, hk, hn, hrefused, ?_⟩)
      rw [← List.drop_drop, hdrop, List.drop_append_of_le_length (by omega)]
      simp only [List.append_assoc]

end

namespace Kat

/-- The known answers, but every seal is refused before it touches its buffer. -/
def refusing : Gcm.Crate :=
  { Gcm.kat with
    sealDetached := fun _ _ _ _ => none
    sealDetached_length := fun h => by cases h }

/-- `b"hey"`. -/
def plain : Slice UInt8 := ⟨[0x68, 0x65, 0x79], by decide⟩

end Kat

open Kat in
/-- A key of the other algorithm leaves header and nonce behind, a refusal the plaintext. -/
theorem seal_refused_leaves_frame :
    (seal_ (ring256.toProvider Gcm.kat) Gcm.Kat.handle128 7 Gcm.Kat.nonce 0 plain.data).run
      (List.replicate 43 0) = .err (.crypto (.algorithmMismatch .aes256Gcm .aes128Gcm))
        (Gcm.Kat.header256 ++ Gcm.Kat.nonce ++ List.replicate 19 0) ∧
    (ring256.seal_ refusing Gcm.Kat.handle256 Gcm.Kat.nonce [] plain.data).run
      (List.replicate 19 0) = .err (.providerUnavailable "ring seal")
        (plain.data ++ List.replicate 16 0) ∧
    (sw256.seal_ refusing Gcm.Kat.handle256 Gcm.Kat.nonce [] plain.data).run
      (List.replicate 19 0) = .err (.providerUnavailable "AES-256-GCM seal")
        (plain.data ++ List.replicate 16 0) :=
  ⟨by decide, by decide, by decide⟩

open Kat in
theorem seal_refused_kat :
    (seal_ (ring256.toProvider Gcm.kat) Gcm.Kat.handle128 7 Gcm.Kat.nonce 0 plain.data).run
      (List.replicate 43 0) = .err (.crypto (.algorithmMismatch .aes256Gcm .aes128Gcm))
        (Gcm.Kat.header256 ++ Gcm.Kat.nonce ++ List.replicate 19 0) ∧
    ∃ header : Octets, header.length = 12 ∧
      Gcm.Kat.header256 ++ Gcm.Kat.nonce ++ List.replicate 19 0 =
        header ++ Gcm.Kat.nonce ++ (List.replicate 43 0).drop 24 := by
  have hrun : (seal_ (ring256.toProvider Gcm.kat) Gcm.Kat.handle128 7 Gcm.Kat.nonce 0
      plain.data).run (List.replicate 43 0) =
        .err (.crypto (.algorithmMismatch .aes256Gcm .aes128Gcm))
          (Gcm.Kat.header256 ++ Gcm.Kat.nonce ++ List.replicate 19 0) := by decide
  refine ⟨hrun, ?_⟩
  obtain ⟨hown, -⟩ | ⟨ce, -, -, hleft⟩ | ⟨ce, k, n, hce, hprimitive, -⟩ :=
    (seal_refused (.ring ring256) Gcm.Kat.handle128 Gcm.Kat.nonce plain (List.replicate 43 0)
      _).2 7 0 _ hrun
  · exact absurd rfl (hown _)
  · exact ⟨_, FrameHeader.length_bytes _, hleft⟩
  · cases hce
    exact absurd hprimitive id

end Wire

end SmartSfp
