import SmartSfp.Crypto.Kat
import SmartSfp.Wire.Frame
import SmartSfp.Crypto.Ring
import SmartSfp.Crypto.Sw

/-!
# RoundTrip — frames over any provider that keeps the trait's contract
-/

namespace SmartSfp

open Lib Exec

namespace CryptoProvider

/-- `seal_` writes exactly `plaintext.len() + tag_len()` bytes to the front of its buffer and
returns that count. -/
def WritesSealed (provider : CryptoProvider) : Prop :=
  ∀ {key nonce aad} {plaintext : Slice UInt8} {out n out'},
    (provider.seal_ key nonce aad plaintext.data).run out = .ok n out' →
      n = plaintext.data.length + provider.algorithm.tagLen ∧ out'.drop n = out.drop n

/-- `open_` of what `seal_` wrote, under the same key, nonce and associated data, writes the
plaintext to the front of any buffer with room for it. -/
def OpensSealed (provider : CryptoProvider) : Prop :=
  ∀ {key nonce aad} {plaintext : Slice UInt8} {out n out'},
    (provider.seal_ key nonce aad plaintext.data).run out = .ok n out' →
      ∀ buf : Octets, plaintext.data.length ≤ buf.length → ∃ buf',
        (provider.open_ key nonce aad (out'.take n)).run buf = .ok plaintext.data.length buf' ∧
          buf'.take plaintext.data.length = plaintext.data

/-- The contract in the trait's documentation. -/
structure Conforms (provider : CryptoProvider) : Prop where
  writes : provider.WritesSealed
  opens : provider.OpensSealed

end CryptoProvider

theorem AesGcmRingProvider.writesSealed (crate : Gcm.Crate) (self : AesGcmRingProvider) :
    (self.toProvider crate).WritesSealed := by
  intro key nonce aad plaintext out n out' h
  change (self.seal_ crate key nonce aad plaintext.data).run out = .ok n out' at h
  rw [self.seal_run crate _ _ _ _ _ plaintext.length_le] at h
  exact AesGcm.sealSpec_writes h

/-- The `ring` provider keeps the contract over a correct crate. -/
theorem AesGcmRingProvider.conforms (crate : Gcm.Crate) (hcorrect : crate.aead.Correct)
    (self : AesGcmRingProvider) : (self.toProvider crate).Conforms where
  writes := self.writesSealed crate
  opens := by
    intro key nonce aad plaintext out n out' h buf hbuf
    change (self.seal_ crate key nonce aad plaintext.data).run out = .ok n out' at h
    rw [self.seal_run crate _ _ _ _ _ plaintext.length_le] at h
    refine ⟨plaintext.data ++ buf.drop plaintext.data.length, ?_, List.take_left⟩
    change (self.open_ crate key nonce aad (out'.take n)).run buf = _
    rw [self.open_run]
    exact AesGcm.openSpec_of_sealSpec hcorrect h hbuf

/-- Handles `KeyHandle::new` would not build never seal. -/
theorem AesGcmSwProvider.writesSealed (crate : Gcm.Crate) (self : AesGcmSwProvider) :
    (self.toProvider crate).WritesSealed := by
  intro key nonce aad plaintext out n out' h
  change (self.seal_ crate key nonce aad plaintext.data).run out = .ok n out' at h
  rw [self.seal_run crate (self.wellFormed_of_seal crate h) _ _ _ _ plaintext.length_le] at h
  exact AesGcm.sealSpec_writes h

theorem AesGcmSwProvider.conforms (crate : Gcm.Crate) (hcorrect : crate.aead.Correct)
    (self : AesGcmSwProvider) : (self.toProvider crate).Conforms where
  writes := self.writesSealed crate
  opens := by
    intro key nonce aad plaintext out n out' h buf hbuf
    change (self.seal_ crate key nonce aad plaintext.data).run out = .ok n out' at h
    have hkey := self.wellFormed_of_seal crate h
    rw [self.seal_run crate hkey _ _ _ _ plaintext.length_le] at h
    refine ⟨plaintext.data ++ buf.drop plaintext.data.length, ?_, List.take_left⟩
    change (self.open_ crate key nonce aad (out'.take n)).run buf = _
    rw [self.open_run crate hkey]
    exact AesGcm.openSpec_of_sealSpec hcorrect h hbuf

namespace Wire

/-- What a successful `seal_` did, in terms of the provider. -/
theorem seal_eq_ok {provider : CryptoProvider} (hwrites : provider.WritesSealed) {key : KeyHandle}
    {keyId : UInt32} {nonce : Octets} {flags : UInt8} {plaintext : Slice UInt8}
    {out out' : Octets} {n : Nat} (hn : nonce.length = 12)
    (hroom : plaintext.data.length + 40 ≤ out.length)
    (h : (seal_ provider key keyId nonce flags plaintext.data).run out = .ok n out') :
    ∃ window body, (provider.seal_ key nonce (sealHeader provider.algorithm keyId flags).bytes
        plaintext.data).run window = .ok body.length body ∧
      body.length = plaintext.data.length + 16 ∧ n = 24 + body.length ∧
      out' = (sealHeader provider.algorithm keyId flags).bytes ++ nonce ++ body ++
        out.drop n := by
  obtain ⟨front, rest, rfl, hfront, -⟩ := exists_split (n := 24) (s := out) (by omega)
  rw [List.length_append] at hroom
  obtain ⟨window, slack, rfl, hwindow, -⟩ :=
    exists_split (n := plaintext.data.length + 16) (s := rest) (by omega)
  rw [← List.append_assoc, seal_run _ _ _ _ _ hn plaintext.length_le hfront hwindow] at h
  cases hcall : (provider.seal_ key nonce (sealHeader provider.algorithm keyId flags).bytes
      plaintext.data).run window with
  | ok written body =>
    -- the provider writes its window full, so the frame ends where the slack begins
    have hkeeps := provider.seal_keeps key nonce (sealHeader provider.algorithm keyId flags).bytes
      plaintext.data window
    rw [hcall] at h hkeeps
    obtain ⟨hwritten, -⟩ := hwrites hcall
    rw [AlgoId.tagLen_eq] at hwritten
    have hbody : body.length = plaintext.data.length + 16 := Eq.trans hkeeps hwindow
    have hfits := add_lt_usizeSize plaintext.length_le
    rw [Outcome.mapState_ok, Outcome.mapErr_ok, Outcome.bind_ok, run_addUsize (by omega)] at h
    cases h
    refine ⟨window, body, ?_, hbody, by omega, ?_⟩
    · rw [hcall, hwritten, hbody]
    · congr 1
      have hdrop : 24 + written = (front ++ (window ++ slack)).length - slack.length := by
        simp only [List.length_append]
        omega
      rw [hdrop, ← List.append_assoc front, @List.length_append _ (front ++ window),
        Nat.add_sub_cancel, List.drop_left]
  | err e body =>
    rw [hcall] at h
    cases h
  | panic p =>
    rw [hcall] at h
    cases h

/-- A seal that succeeds was given a nonce of the right length and room for the frame. -/
theorem fits_of_seal {provider : CryptoProvider} {key : KeyHandle} {keyId : UInt32}
    {nonce : Octets} {flags : UInt8} {plaintext : Slice UInt8} {out out' : Octets} {n : Nat}
    (h : (seal_ provider key keyId nonce flags plaintext.data).run out = .ok n out') :
    nonce.length = 12 ∧ plaintext.data.length + 40 ≤ out.length := by
  have hn : nonce.length = 12 := by
    by_contra hne
    rw [seal_run_nonce hne] at h
    cases h
  refine ⟨hn, ?_⟩
  by_contra hroom
  rw [seal_run_small hn plaintext.length_le (by omega)] at h
  cases h

/-- The frame a successful seal leaves at the front of its buffer. -/
theorem frame_of_seal {provider : CryptoProvider} (hwrites : provider.WritesSealed)
    {key : KeyHandle} {keyId : UInt32} {nonce : Octets} {flags : UInt8} {plaintext : Slice UInt8}
    {out out' : Octets} {n : Nat}
    (h : (seal_ provider key keyId nonce flags plaintext.data).run out = .ok n out') :
    n = plaintext.data.length + 40 ∧ ∃ window body,
      (provider.seal_ key nonce (sealHeader provider.algorithm keyId flags).bytes
        plaintext.data).run window = .ok body.length body ∧
      body.length = plaintext.data.length + 16 ∧
      out'.take n = (sealHeader provider.algorithm keyId flags).bytes ++ nonce ++ body ∧
      out' = out'.take n ++ out.drop n := by
  obtain ⟨hn, hroom⟩ := fits_of_seal h
  obtain ⟨window, body, hcall, hbody, hcount, hout⟩ := seal_eq_ok hwrites hn hroom h
  have hframe :
      ((sealHeader provider.algorithm keyId flags).bytes ++ nonce ++ body).length = n := by
    rw [List.length_append, List.length_append, FrameHeader.length_bytes, hn]
    omega
  have htake : out'.take n =
      (sealHeader provider.algorithm keyId flags).bytes ++ nonce ++ body := by
    rw [hout, ← hframe, List.take_left]
  refine ⟨by omega, window, body, hcall, hbody, htake, ?_⟩
  rw [htake]
  exact hout

/-- A conforming provider opens the frames it sealed. -/
theorem open_of_seal {provider : CryptoProvider} (hconf : provider.Conforms) {key : KeyHandle}
    {keyId : UInt32} {nonce : Octets} {flags : UInt8} {plaintext : Slice UInt8}
    {out out' : Octets} {n : Nat}
    (h : (seal_ provider key keyId nonce flags plaintext.data).run out = .ok n out')
    {buf : Octets} (hbuf : plaintext.data.length ≤ buf.length) :
    ∃ buf', (open_ provider key (out'.take n)).run buf = .ok plaintext.data.length buf' ∧
      buf'.take plaintext.data.length = plaintext.data := by
  obtain ⟨-, window, body, hcall, hbody, hframe, -⟩ := frame_of_seal hconf.writes h
  obtain ⟨buf', hopen, hback⟩ := hconf.opens hcall buf hbuf
  rw [List.take_length] at hopen
  refine ⟨buf', ?_, hback⟩
  rw [hframe, open_run, parse_sealed _ _ _ (fits_of_seal h).1 (by omega)]
  simp only
  rw [if_neg (by omega), hopen]
  rfl

/-- Round trip for any conforming provider: what `seal_` writes is a frame of `frameLen` bytes with
the header asked for, it touches nothing behind the frame, and `open_` gives the plaintext back in
any buffer with room for it.  A buffer that is too short is refused. -/
theorem seal_open_roundtrip (provider : CryptoProvider) (hconf : provider.Conforms)
    (key : KeyHandle) (keyId : UInt32) (flags : UInt8) (nonce : Octets)
    (hn : nonce.length = provider.algorithm.nonceLen) (plaintext : Slice UInt8) :
    ∃ need, (∀ s : Unit, (frameLen plaintext.data.length nonce.length provider.algorithm.tagLen :
        Exec Unit Empty Nat).run s = .ok need s) ∧
      (∀ out n out', need ≤ out.length →
        (seal_ provider key keyId nonce flags plaintext.data).run out = .ok n out' →
          n = need ∧ out'.length = out.length ∧ out'.drop n = out.drop n ∧
          (∀ s : Unit, (FrameHeader.decode out').run s =
            .ok ⟨version, flags, keyId, provider.algorithm,
              UInt8.ofNat provider.algorithm.nonceLen⟩ s) ∧
          ∀ buf, plaintext.data.length ≤ buf.length → ∃ buf',
            (open_ provider key (out'.take n)).run buf = .ok plaintext.data.length buf' ∧
              buf'.take plaintext.data.length = plaintext.data) ∧
      ∀ out, out.length < need →
        (seal_ provider key keyId nonce flags plaintext.data).run out =
          .err .outputTooSmall out := by
  rw [AlgoId.nonceLen_eq] at hn
  simp only [AlgoId.nonceLen_eq, AlgoId.tagLen_eq, hn]
  refine ⟨12 + 12 + plaintext.data.length + 16,
    run_frameLen (add_lt_usizeSize plaintext.length_le), ?_, ?_⟩
  · intro out n out' hroom hseal
    obtain ⟨hcount, window, body, hcall, hbody, hframe, hout⟩ :=
      frame_of_seal hconf.writes hseal
    have hlen : (out'.take n).length = n := by
      rw [hframe, List.length_append, List.length_append, FrameHeader.length_bytes, hn]
      omega
    refine ⟨by omega, ?_, ?_, ?_, fun buf hbuf => open_of_seal hconf hseal hbuf⟩
    · rw [hout, List.length_append, hlen, List.length_drop]
      omega
    · have hdrop : (out'.take n ++ out.drop n).drop (out'.take n).length = out.drop n :=
        List.drop_left
      rw [← hout, hlen] at hdrop
      exact hdrop
    · intro s
      have hparse := FrameHeader.parse_bytes (sealHeader provider.algorithm keyId flags) rfl
        (nonce ++ body ++ out.drop n)
      rw [← List.append_assoc, ← List.append_assoc, ← hframe, ← hout] at hparse
      rw [FrameHeader.decode_run, hparse]
      rfl
  · intro out hsmall
    exact seal_run_small hn plaintext.length_le (by omega)

/-- The round trip of `text` under key 7, with two bytes to spare. -/
theorem seal_open_roundtrip_kat :
    (seal_ (AesGcmRingProvider.toProvider Gcm.kat ⟨.aes256Gcm, AlgoId.aes256Gcm_ne⟩)
      Gcm.Kat.handle256 7 Gcm.Kat.nonce 0 Gcm.Kat.text).run (List.replicate 44 0) =
        .ok 42 (Gcm.Kat.frame256 ++ [0, 0]) ∧
    ∃ buf', (open_ (AesGcmRingProvider.toProvider Gcm.kat ⟨.aes256Gcm, AlgoId.aes256Gcm_ne⟩)
      Gcm.Kat.handle256 Gcm.Kat.frame256).run [0, 0, 0] = .ok 2 buf' ∧
        buf'.take 2 = Gcm.Kat.text := by
  obtain ⟨need, hneed, hseal, -⟩ := seal_open_roundtrip
    (AesGcmRingProvider.toProvider Gcm.kat ⟨.aes256Gcm, AlgoId.aes256Gcm_ne⟩)
    (AesGcmRingProvider.conforms Gcm.kat Gcm.kat_correct _) Gcm.Kat.handle256 7 0 Gcm.Kat.nonce
    (by decide) ⟨Gcm.Kat.text, by decide⟩
  have h42 : need = 42 := by
    have h := hneed ()
    cases h
    rfl
  have hrun : (seal_ (AesGcmRingProvider.toProvider Gcm.kat ⟨.aes256Gcm, AlgoId.aes256Gcm_ne⟩)
      Gcm.Kat.handle256 7 Gcm.Kat.nonce 0 Gcm.Kat.text).run (List.replicate 44 0) =
        .ok 42 (Gcm.Kat.frame256 ++ [0, 0]) := rfl
  obtain ⟨-, -, -, -, hopen⟩ := hseal _ _ _ (by rw [h42]; decide) hrun
  exact ⟨hrun, hopen [0, 0, 0] (by decide)⟩

end Wire

end SmartSfp
