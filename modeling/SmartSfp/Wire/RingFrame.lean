import SmartSfp.Wire.Frame
import SmartSfp.Crypto.Ring

/-!
# RingFrame — frames over the `ring` provider, in one expression

The daemon seals into a buffer of exactly the frame's size and opens into one as long as the frame.
With these buffers a call of the wire format over the `ring` provider is a plain function of its
inputs, and never panics.
-/

namespace SmartSfp

namespace Wire

open Lib Exec

variable (crate : Gcm.Crate) (self : AesGcmRingProvider) (key : KeyHandle)

/-- The frame of a plaintext under the key's own id and no flags. -/
def ringSealFrame (nonce : Gcm.Nonce) (plaintext : Octets) : Except CryptoError Octets :=
  let header := (sealHeader self.algo key.id 0).bytes
  match AesGcm.sealExact crate self.algo self.supported "ring seal" key nonce header plaintext with
  | .error e => .error e
  | .ok sealed => .ok (header ++ nonce.bytes ++ sealed)

/-- The plaintext of a frame. -/
def ringOpenFrame (frame : Octets) : Except WireError Octets :=
  match parse self.algo frame with
  | .error e => .error e
  | .ok parts =>
    match Gcm.Nonce.ofSlice parts.nonce with
    | none => .error (.crypto (.invalidNonce 12 parts.nonce.length))
    | some n =>
      match AesGcm.openExact crate self.algo self.supported key n parts.aad parts.body with
      | .error e => .error (.crypto e)
      | .ok p => .ok p

theorem seal_run_ring {nonce : Octets} (hn : nonce.length = 12) {plaintext : Octets}
    (hfit : plaintext.length ≤ isizeMax) (out : Octets)
    (hout : out.length = plaintext.length + 40) :
    ∃ left, (seal_ (self.toProvider crate) key key.id nonce 0 plaintext).run out =
      match ringSealFrame crate self key ⟨nonce, hn⟩ plaintext with
      | .ok frame => .ok (plaintext.length + 40) frame
      | .error e => .err (.crypto e) left := by
  obtain ⟨front, body, rfl, hfront, -⟩ := exists_split (n := 24) (s := out) (by omega)
  have hbody : body.length = plaintext.length + 16 := by
    rw [List.length_append] at hout
    omega
  let header := (sealHeader self.algo key.id 0).bytes
  have hrun : (seal_ (self.toProvider crate) key key.id nonce 0 plaintext).run (front ++ body) =
      ((((self.seal_ crate key nonce header plaintext).run body).mapState fun w =>
        header ++ nonce ++ w ++ []).mapErr WireError.crypto).bind fun written t =>
          (addUsize 24 written).run t := by
    have h := seal_run (self.toProvider crate) key key.id 0 [] hn hfit hfront hbody
    rwa [List.append_nil] at h
  obtain ⟨left, hspec⟩ := AesGcm.sealSpec_exact crate self.algo self.supported "ring seal" key
    (Gcm.Nonce.ofSlice_eq_some hn) header hbody
  rw [← self.seal_run crate key nonce header plaintext body hfit] at hspec
  refine ⟨header ++ nonce ++ left, ?_⟩
  rw [hrun, hspec]
  simp only [ringSealFrame]
  cases AesGcm.sealExact crate self.algo self.supported "ring seal" key ⟨nonce, hn⟩ header
      plaintext with
  | error e =>
    simp only [Outcome.mapState_err, Outcome.mapErr_err, Outcome.bind_err, List.append_nil]
  | ok sealed =>
    have hfits := add_lt_usizeSize hfit
    simp only [Outcome.mapState_ok, Outcome.mapErr_ok, Outcome.bind_ok, List.append_nil]
    rw [run_addUsize (by omega), show 24 + (plaintext.length + 16) = plaintext.length + 40 by omega]

theorem ringSealFrame_eq_ok_iff {nonce : Gcm.Nonce} {plaintext frame : Octets} :
    ringSealFrame crate self key nonce plaintext = .ok frame ↔
      ∃ sealed, AesGcm.sealExact crate self.algo self.supported "ring seal" key nonce
          (sealHeader self.algo key.id 0).bytes plaintext = .ok sealed ∧
        frame = (sealHeader self.algo key.id 0).bytes ++ nonce.bytes ++ sealed := by
  simp only [ringSealFrame]
  cases AesGcm.sealExact crate self.algo self.supported "ring seal" key nonce
      (sealHeader self.algo key.id 0).bytes plaintext with
  | error e => simp
  | ok sealed => simp [eq_comm]

theorem ringSealFrame_length {nonce : Gcm.Nonce} {plaintext frame : Octets}
    (h : ringSealFrame crate self key nonce plaintext = .ok frame) :
    frame.length = plaintext.length + 40 := by
  obtain ⟨sealed, hseal, rfl⟩ := (ringSealFrame_eq_ok_iff crate self key).mp h
  rw [List.length_append, List.length_append, FrameHeader.length_bytes, nonce.length_eq,
    AesGcm.sealExact_length hseal]
  omega

variable {crate self key} in
/-- A well-formed key of the provider's algorithm seals whatever the primitive seals. -/
theorem exists_ringSealFrame {admissible : Octets → Prop} (hseals : crate.aead.SealsOn admissible)
    (halgo : self.algo = key.algo) (hwf : key.WellFormed) (nonce : Gcm.Nonce) {plaintext : Octets}
    (hadm : admissible plaintext) :
    ∃ frame, ringSealFrame crate self key nonce plaintext = .ok frame := by
  have hvariant : key.material.length = (self.algo.variant self.supported).keyLen := by
    rw [AlgoId.variant_keyLen, halgo]
    exact hwf
  obtain ⟨⟨c, t⟩, hct⟩ := hseals ⟨_, _, hvariant⟩ nonce (sealHeader self.algo key.id 0).bytes
    plaintext hadm
  refine ⟨_, (ringSealFrame_eq_ok_iff crate self key).mpr ⟨c ++ t, ?_, rfl⟩⟩
  exact AesGcm.sealExact_eq_ok_iff.mpr
    ⟨halgo.symm, _, c, t, Gcm.Key.new_eq_some hvariant, hct, rfl⟩

theorem open_run_ring (frame out : Octets) (hout : out.length = frame.length) :
    ∃ left, (open_ (self.toProvider crate) key frame).run out =
      match ringOpenFrame crate self key frame with
      | .ok p => .ok p.length (p ++ out.drop p.length)
      | .error e => .err e left := by
  rw [open_run]
  simp only [ringOpenFrame, self.toProvider_algorithm, self.toProvider_open]
  cases hparse : parse self.algo frame with
  | error e => exact ⟨out, rfl⟩
  | ok parts =>
    obtain ⟨hframe, haad, hn, hbody⟩ := parse_eq_ok hparse
    have hlen : frame.length = 24 + parts.body.length := by
      rw [hframe, List.length_append, List.length_append, haad, hn]
    obtain ⟨left, hspec⟩ := AesGcm.openSpec_exact crate self.algo self.supported
      (fun _ _ _ _ _ out => out) key (Gcm.Nonce.ofSlice_eq_some hn) parts.aad hbody out (by omega)
    refine ⟨left, ?_⟩
    simp only
    rw [if_neg (by omega), Gcm.Nonce.ofSlice_eq_some hn]
    rw [self.open_run, hspec]
    simp only
    cases AesGcm.openExact crate self.algo self.supported key ⟨parts.nonce, hn⟩ parts.aad
        parts.body with
    | error e => rfl
    | ok p => rfl

/-- Over a correct crate, a frame opens under the handle that sealed it. -/
theorem ringOpenFrame_of_ringSealFrame (hcorrect : crate.aead.Correct) {nonce : Gcm.Nonce}
    {plaintext frame : Octets} (h : ringSealFrame crate self key nonce plaintext = .ok frame) :
    ringOpenFrame crate self key frame = .ok plaintext := by
  obtain ⟨sealed, hseal, rfl⟩ := (ringSealFrame_eq_ok_iff crate self key).mp h
  have hlen := AesGcm.sealExact_length hseal
  simp only [ringOpenFrame, parse_sealed self.algo key.id 0 nonce.length_eq
    (by omega : 16 ≤ sealed.length), Gcm.Nonce.ofSlice_eq_some nonce.length_eq,
    AesGcm.openExact_of_sealExact hcorrect hseal]

end Wire

end SmartSfp
