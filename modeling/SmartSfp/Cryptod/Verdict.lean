import SmartSfp.Cryptod.Naming
import SmartSfp.Wire.Grammar

/-!
# Verdict — what the daemon answers to a received frame

`decode`, `open_`, the provider and the daemon each check a part of a frame.  Together they ask two
questions: is the byte string a frame of the active key's algorithm, and does the AEAD accept it.
-/

namespace SmartSfp

namespace Wire

open Lib Exec

/-- The frames of an algorithm: header, nonce and tag have room, and five bytes of the header the
one value they can have. -/
def IsFrame (algo : AlgoId) (frame : Octets) : Prop :=
  headerLen + algo.nonceLen + algo.tagLen ≤ frame.length ∧ frame.take 2 = magic ∧
    frame[2]? = some version ∧ frame[8]? = some algo.toU8 ∧
    frame[9]? = some (UInt8.ofNat algo.nonceLen)

/-- The AEAD opens the rest of the frame to `p`, with its first twelve bytes as associated data. -/
def Accepts (crate : Gcm.Crate) (key : KeyHandle) (frame p : Octets) : Prop :=
  ∃ (supported : key.algo ≠ .ozDst1105) (k : Gcm.Key) (n : Gcm.Nonce) (c t : Octets),
    k.variant = key.algo.variant supported ∧ k.material = key.material ∧
    t.length = key.algo.tagLen ∧ frame = frame.take headerLen ++ n.bytes ++ (c ++ t) ∧
    crate.aead.Opens k n (frame.take headerLen) (c, t) p

variable {algo : AlgoId} {frame : Octets}

theorem isFrame_iff : IsFrame algo frame ↔ ∃ parts, parse algo frame = .ok parts := by
  constructor
  · rintro ⟨hlen, hmagic, hversion, halgo, hnonce⟩
    rw [AlgoId.nonceLen_eq, AlgoId.tagLen_eq, headerLen_eq] at hlen
    obtain ⟨m0, m1, v, f, k0, k1, k2, k3, a, n, r0, r1, rest, rfl⟩ :=
      exists_twelve (l := frame) (by omega)
    cases hversion
    cases halgo
    rw [AlgoId.nonceLen_eq] at hnonce
    cases hnonce
    refine ⟨_, parse_eq_ok_iff.mpr ⟨⟨version, f, fromBeBytes k0 k1 k2 k3, algo, 12⟩, ?_, rfl, rfl,
      hlen, rfl⟩⟩
    have hbytes : [m0, m1] = magic := hmagic
    simp only [FrameHeader.parse, hbytes, ne_eq, not_true_eq_false, if_false, AlgoId.fromU8_toU8]
    rfl
  · rintro ⟨parts, hparse⟩
    obtain ⟨header, hheader, rfl, hn, hlen, -⟩ := parse_eq_ok_iff.mp hparse
    obtain ⟨-, hversion, htake⟩ := FrameHeader.parse_eq_ok_iff.mp hheader
    have hbyte (i : Nat) (hi : i < 10) : frame[i]? = header.bytes[i]? := by
      rw [← List.getElem?_take_of_lt hi, htake, List.getElem?_take_of_lt hi]
    refine ⟨?_, ?_, ?_, ?_, ?_⟩
    · rwa [AlgoId.nonceLen_eq, AlgoId.tagLen_eq]
    · have h2 := congrArg (List.take 2) htake
      rw [List.take_take, List.take_take] at h2
      exact h2
    · rw [hbyte 2 (by decide), ← hversion]
      rfl
    · exact hbyte 8 (by decide)
    · rw [hbyte 9 (by decide), AlgoId.nonceLen_eq,
        show UInt8.ofNat 12 = header.nonceLen from hn.symm]
      rfl

variable {crate : Gcm.Crate} {self : AesGcmRingProvider} {key : KeyHandle} {p : Octets}

theorem authenticates_iff :
    (∃ header, Authenticates crate key header frame p) ↔
      IsFrame key.algo frame ∧ Accepts crate key frame p := by
  constructor
  · rintro ⟨header, hheader, halgo, hnonceLen, supported, k, n, c, t, hvariant, hmaterial, ht,
      hframe, hopens⟩
    have hparse := parse_of_layout hheader hnonceLen n.length_eq ht hframe
    rw [halgo] at hparse
    refine ⟨isFrame_iff.mpr ⟨_, hparse⟩, supported, k, n, c, t, hvariant, hmaterial, ?_, hframe,
      hopens⟩
    rw [ht, AlgoId.tagLen_eq]
  · rintro ⟨hisFrame, supported, k, n, c, t, hvariant, hmaterial, ht, hframe, hopens⟩
    obtain ⟨parts, hparse⟩ := isFrame_iff.mp hisFrame
    obtain ⟨header, hheader, halgo, hnonceLen, -, -⟩ := parse_eq_ok_iff.mp hparse
    rw [AlgoId.tagLen_eq] at ht
    exact ⟨header, hheader, halgo, hnonceLen, supported, k, n, c, t, hvariant, hmaterial, ht,
      hframe, hopens⟩

/-- Under a key `KeyHandle::new` would build, only the tag can fail. -/
theorem authFailed_of_openExact {supported : key.algo ≠ .ozDst1105} (hkey : key.WellFormed)
    {n : Gcm.Nonce} {aad body : Octets} {e : CryptoError}
    (h : AesGcm.openExact crate key.algo supported key n aad body = .error e) :
    e = .authFailed := by
  have hlen : key.material.length = (key.algo.variant supported).keyLen := by
    rw [AlgoId.variant_keyLen]
    exact hkey
  unfold AesGcm.openExact at h
  rw [if_neg (not_not.mpr rfl), Gcm.Key.new_eq_some hlen] at h
  simp only at h
  split at h
  · cases h
    rfl
  · cases h

variable (crate frame) in
/-- Everything a provider of the key's algorithm makes of a byte string. -/
theorem ringOpenFrame_cases (halgo : self.algo = key.algo) (hkey : key.WellFormed) :
    (¬ IsFrame key.algo frame ∧
      ∃ e, ringOpenFrame crate self key frame = .error e ∧ e.OfLayout) ∨
    (IsFrame key.algo frame ∧
      ∃ p, Accepts crate key frame p ∧ ringOpenFrame crate self key frame = .ok p) ∨
    (IsFrame key.algo frame ∧ (∀ p, ¬ Accepts crate key frame p) ∧
      ringOpenFrame crate self key frame = .error (.crypto .authFailed)) := by
  by_cases hisFrame : IsFrame key.algo frame
  · cases hopen : ringOpenFrame crate self key frame with
    | ok p =>
      have haccepts := authenticates_iff.mp ((ringOpenFrame_eq_ok_iff halgo).mp hopen)
      exact .inr (.inl ⟨hisFrame, p, haccepts.2, rfl⟩)
    | error e =>
      have hnot (p : Octets) : ¬ Accepts crate key frame p := by
        intro haccepts
        have h := (ringOpenFrame_eq_ok_iff halgo).mpr
          (authenticates_iff.mpr ⟨hisFrame, haccepts⟩)
        rw [hopen] at h
        cases h
      refine .inr (.inr ⟨hisFrame, hnot, ?_⟩)
      obtain ⟨algo, supported⟩ := self
      subst halgo
      obtain ⟨parts, hparse⟩ := isFrame_iff.mp hisFrame
      obtain ⟨-, -, hn, -⟩ := parse_eq_ok hparse
      simp only [ringOpenFrame, hparse, Gcm.Nonce.ofSlice_eq_some hn] at hopen
      split at hopen
      · rename_i hexact
        cases hopen
        rw [authFailed_of_openExact hkey hexact]
      · cases hopen
  · refine .inl ⟨hisFrame, ?_⟩
    cases hparse : parse self.algo frame with
    | error e => exact ⟨e, by simp only [ringOpenFrame, hparse], ofLayout_of_parse hparse⟩
    | ok parts =>
      rw [halgo] at hparse
      exact absurd (isFrame_iff.mpr ⟨parts, hparse⟩) hisFrame

theorem length_of_accepts (hframe : IsFrame key.algo frame) (h : Accepts crate key frame p) :
    p.length = frame.length - headerLen - key.algo.nonceLen - key.algo.tagLen := by
  obtain ⟨-, k, n, c, t, -, -, ht, hlayout, hopens⟩ := h
  have hp : p.length = c.length := crate.openDetached_length hopens
  have hheader : (frame.take headerLen).length = 12 := by
    have hlen := hframe.1
    rw [AlgoId.nonceLen_eq, AlgoId.tagLen_eq, headerLen_eq] at hlen
    rw [List.length_take, headerLen_eq]
    omega
  have hlen : frame.length = 12 + 12 + (c.length + key.algo.tagLen) := by
    rw [hlayout, List.length_append, List.length_append, List.length_append, hheader, n.length_eq,
      ht]
  rw [hp, hlen, AlgoId.nonceLen_eq, AlgoId.tagLen_eq, headerLen_eq]
  omega

end Wire

namespace Cryptod

open Lib Exec Ipc

variable {crate : Gcm.Crate} {s : CryptodState} {key : KeyHandle}

theorem plaintext_iff (hkey : s.activeKey = some key) (elapsed : UInt64) (q : DecryptParams)
    (p : Octets) :
    (∃ t, (handle crate elapsed (.decrypt q)).run s = .ok (.plaintext p) t) ↔
      Wire.ringOpenFrame crate s.provider key q.frame.data = .ok p := by
  have hrun := handle_decrypt_run crate hkey elapsed q
  cases hopen : Wire.ringOpenFrame crate s.provider key q.frame.data with
  | ok p' =>
    rw [hopen] at hrun
    simp [hrun]
  | error e =>
    rw [hopen] at hrun
    simp [hrun]

theorem error_iff (hkey : s.activeKey = some key) (elapsed : UInt64) (q : DecryptParams)
    (code : UInt32) :
    (∃ message t, (handle crate elapsed (.decrypt q)).run s = .ok (.error code message) t) ↔
      ∃ e, Wire.ringOpenFrame crate s.provider key q.frame.data = .error e ∧
        openCode e = code := by
  have hrun := handle_decrypt_run crate hkey elapsed q
  cases hopen : Wire.ringOpenFrame crate s.provider key q.frame.data with
  | ok p =>
    rw [hopen] at hrun
    simp [hrun]
  | error e =>
    rw [hopen] at hrun
    simp [hrun]

theorem openCode_of_ofLayout {e : Wire.WireError} (h : e.OfLayout) : openCode e = 422 := by
  unfold openCode
  split
  · cases h
  · rfl

/-! ## The three answers -/

variable {self : AesGcmRingProvider} {frame : Octets}

theorem malformed_iff (halgo : self.algo = key.algo) (hkey : key.WellFormed) :
    (∃ e, Wire.ringOpenFrame crate self key frame = .error e ∧ openCode e = 422) ↔
      ¬ Wire.IsFrame key.algo frame := by
  rcases Wire.ringOpenFrame_cases frame crate halgo hkey with
    ⟨hnot, e, herr, hlayout⟩ | ⟨hisFrame, p, -, hok⟩ | ⟨hisFrame, -, herr⟩
  · exact iff_of_true ⟨e, herr, openCode_of_ofLayout hlayout⟩ hnot
  · refine iff_of_false ?_ (not_not.mpr hisFrame)
    rintro ⟨e, h, -⟩
    rw [hok] at h
    cases h
  · refine iff_of_false ?_ (not_not.mpr hisFrame)
    rintro ⟨e, h, hcode⟩
    rw [herr] at h
    cases h
    exact absurd hcode (by decide)

theorem rejected_iff (halgo : self.algo = key.algo) (hkey : key.WellFormed) :
    (∃ e, Wire.ringOpenFrame crate self key frame = .error e ∧ openCode e = 401) ↔
      Wire.IsFrame key.algo frame ∧ ∀ p, ¬ Wire.Accepts crate key frame p := by
  rcases Wire.ringOpenFrame_cases frame crate halgo hkey with
    ⟨hnot, e, herr, hlayout⟩ | ⟨-, p, haccepts, hok⟩ | ⟨hisFrame, hnone, herr⟩
  · refine iff_of_false ?_ fun h => hnot h.1
    rintro ⟨e', h, hcode⟩
    rw [herr] at h
    cases h
    rw [openCode_of_ofLayout hlayout] at hcode
    exact absurd hcode (by decide)
  · refine iff_of_false ?_ fun h => h.2 p haccepts
    rintro ⟨e, h, -⟩
    rw [hok] at h
    cases h
  · exact iff_of_true ⟨_, herr, rfl⟩ ⟨hisFrame, hnone⟩

/-- The buffer the daemon opens into, as long as the frame, has room for the plaintext. -/
theorem open_roomy (halgo : self.algo = key.algo) (hkey : key.WellFormed) {e : Wire.WireError}
    {left : Octets} (h : (Wire.open_ (self.toProvider crate) key frame).run
      (List.replicate frame.length 0) = .err e left) :
    e ≠ .outputTooSmall ∧ ∀ need room, e ≠ .crypto (.bufferTooSmall need room) := by
  obtain ⟨left', hopen⟩ := Wire.open_run_ring crate self key frame
    (List.replicate frame.length 0) List.length_replicate
  rw [hopen] at h
  rcases Wire.ringOpenFrame_cases frame crate halgo hkey with
    ⟨-, e', herr, hlayout⟩ | ⟨-, p, -, hok⟩ | ⟨-, -, herr⟩
  · rw [herr] at h
    cases h
    constructor
    · rintro rfl
      exact hlayout
    · rintro need room rfl
      exact hlayout
  · rw [hok] at h
    cases h
  · rw [herr] at h
    cases h
    exact ⟨nofun, fun _ _ => nofun⟩

/-- In every state of a sequential run with an active key, a decryption is answered 422 exactly when
the byte string is no frame of the key's algorithm, with a plaintext exactly when it is one and the
AEAD accepts it, and 401 exactly when it is one and the AEAD does not.  The buffer the daemon opens
into is never too small. -/
theorem decrypt_classified (crate : Gcm.Crate) (s₀ : CryptodState)
    (hnew : CryptodState.new = .ok s₀) (xs : List Exchange) (s : CryptodState)
    (hrun : Run (Handles crate) s₀ xs s) (key : KeyHandle) (hkey : s.activeKey = some key)
    (elapsed : UInt64) (q : DecryptParams) :
    ((∃ message t, (handle crate elapsed (.decrypt q)).run s = .ok (.error 422 message) t) ↔
      ¬ Wire.IsFrame key.algo q.frame.data) ∧
    (∀ p, (∃ t, (handle crate elapsed (.decrypt q)).run s = .ok (.plaintext p) t) ↔
      Wire.IsFrame key.algo q.frame.data ∧ Wire.Accepts crate key q.frame.data p) ∧
    (∀ p, Wire.IsFrame key.algo q.frame.data → Wire.Accepts crate key q.frame.data p →
      p.length =
        q.frame.data.length - Wire.headerLen - key.algo.nonceLen - key.algo.tagLen) ∧
    ((∃ message t, (handle crate elapsed (.decrypt q)).run s = .ok (.error 401 message) t) ↔
      Wire.IsFrame key.algo q.frame.data ∧ ∀ p, ¬ Wire.Accepts crate key q.frame.data p) ∧
    ∀ e left, (Wire.open_ (s.provider.toProvider crate) key q.frame.data).run
      (List.replicate q.frame.data.length 0) = .err e left →
        e ≠ .outputTooSmall ∧ ∀ need room, e ≠ .crypto (.bufferTooSmall need room) := by
  obtain ⟨halgo, hwf⟩ := (run_coherent hnew hrun).1.pairs hkey
  refine ⟨?_, fun p => ?_, fun p => Wire.length_of_accepts, ?_, fun e left => open_roomy halgo hwf⟩
  · rw [error_iff hkey]
    exact malformed_iff halgo hwf
  · rw [plaintext_iff hkey, Wire.ringOpenFrame_eq_ok_iff halgo, Wire.authenticates_iff]
  · rw [error_iff hkey]
    exact rejected_iff halgo hwf

namespace Kat

/-- The frame of key 7 with its last tag byte changed. -/
def tampered : DecryptParams := ⟨payload (Gcm.Kat.frame256.dropLast ++ [0])⟩

/-- 39 bytes of a frame. -/
def cutShort : DecryptParams := ⟨payload (Gcm.Kat.frame256.take 39)⟩

end Kat

theorem decrypt_classified_kat :
    (∃ message t, (handle Gcm.kat 0 (.decrypt Kat.cutShort)).run Kat.rotated =
      .ok (.error 422 message) t) ∧
    Wire.IsFrame .aes256Gcm Kat.tampered.frame.data ∧
    ∀ p, ¬ Wire.Accepts Gcm.kat Gcm.Kat.handle256 Kat.tampered.frame.data p := by
  have hrotate : Run (Handles Gcm.kat) Kat.fresh [⟨.rotateKey Kat.rotate256, 0, .ok⟩]
      Kat.rotated := Run.single (by rfl)
  have hcut := decrypt_classified Gcm.kat Kat.fresh rfl _ _ hrotate Gcm.Kat.handle256 rfl 0
    Kat.cutShort
  have htampered := decrypt_classified Gcm.kat Kat.fresh rfl _ _ hrotate Gcm.Kat.handle256 rfl 0
    Kat.tampered
  refine ⟨hcut.1.mpr ?_, htampered.2.2.2.1.mp ⟨_, Kat.rotated.countError, by rfl⟩⟩
  intro h
  exact absurd h.1 (by decide)

end Cryptod

end SmartSfp
