import SmartSfp.Cryptod.Sequential

/-!
# Naming — the key id in the header of a frame that opens

The id of a frame's key is authenticated with the rest of its header, and never compared with the id
of the active key.  So a frame opens under every key of the algorithm and the material it was sealed
under, whatever that key's own id is.
-/

namespace SmartSfp

namespace Wire

variable {crate : Gcm.Crate} {self : AesGcmRingProvider} {key : KeyHandle} {frame p : Octets}

/-- The header of the frame names the key's algorithm, and the body opens to `p` under the key's
algorithm and material with the frame's own header as associated data. -/
def Authenticates (crate : Gcm.Crate) (key : KeyHandle) (header : FrameHeader)
    (frame p : Octets) : Prop :=
  FrameHeader.parse frame = .ok header ∧ header.algo = key.algo ∧ header.nonceLen = 12 ∧
    ∃ (supported : key.algo ≠ .ozDst1105) (k : Gcm.Key) (n : Gcm.Nonce) (c t : Octets),
      k.variant = key.algo.variant supported ∧ k.material = key.material ∧ t.length = 16 ∧
      frame = frame.take 12 ++ n.bytes ++ (c ++ t) ∧ crate.aead.Opens k n (frame.take 12) (c, t) p

theorem parse_eq_ok_iff {algo : AlgoId} {parts : Parts} :
    parse algo frame = .ok parts ↔
      ∃ header, FrameHeader.parse frame = .ok header ∧ header.algo = algo ∧
        header.nonceLen = 12 ∧ 40 ≤ frame.length ∧
        parts = ⟨frame.take 12, (frame.take 24).drop 12, frame.drop 24⟩ := by
  unfold parse
  cases FrameHeader.parse frame with
  | error e => simp
  | ok header =>
    by_cases halgo : header.algo = algo
    · by_cases hn : header.nonceLen = 12
      · by_cases hlen : frame.length < 40
        · simp [halgo, hn, hlen]
        · simp [halgo, hn, hlen, Nat.not_lt.mp hlen, eq_comm]
      · simp [halgo, hn]
    · simp [halgo]

theorem openExact_eq_ok_iff {algo : AlgoId} {supported : algo ≠ .ozDst1105} {n : Gcm.Nonce}
    {aad body : Octets} :
    AesGcm.openExact crate algo supported key n aad body = .ok p ↔
      key.algo = algo ∧ ∃ k, Gcm.Key.new (algo.variant supported) key.material = some k ∧
        crate.openDetached k n aad (body.take (body.length - 16))
          (body.drop (body.length - 16)) = some p := by
  unfold AesGcm.openExact
  by_cases halgo : key.algo = algo
  · cases Gcm.Key.new (algo.variant supported) key.material with
    | none => simp [halgo]
    | some k =>
      cases hopen : crate.openDetached k n aad (body.take (body.length - 16))
          (body.drop (body.length - 16)) with
      | none => simp [halgo, hopen]
      | some p' => simp [halgo, hopen]
  · simp [halgo]

theorem authenticates_of_ringOpenFrame {supported : key.algo ≠ .ozDst1105}
    (h : ringOpenFrame crate ⟨key.algo, supported⟩ key frame = .ok p) :
    ∃ header, Authenticates crate key header frame p := by
  unfold ringOpenFrame at h
  cases hparse : parse key.algo frame with
  | error e =>
    rw [hparse] at h
    cases h
  | ok parts =>
    obtain ⟨hframe, -, hn, hbody⟩ := parse_eq_ok hparse
    obtain ⟨header, hheader, hha, hhn, hlen, rfl⟩ := parse_eq_ok_iff.mp hparse
    simp only [hparse, Gcm.Nonce.ofSlice_eq_some hn] at h
    split at h
    · cases h
    · rename_i p' hopen
      cases h
      obtain ⟨-, k, hk, hopened⟩ := openExact_eq_ok_iff.mp hopen
      have hkey : k.variant = key.algo.variant supported ∧ k.material = key.material := by
        unfold Gcm.Key.new at hk
        split at hk
        · cases hk
          exact ⟨rfl, rfl⟩
        · cases hk
      refine ⟨header, hheader, hha, hhn, supported, k, ⟨_, hn⟩, _, _, hkey.1, hkey.2, ?_, ?_,
        hopened⟩
      · -- the tag is the last sixteen bytes of the body
        have hbody' : 16 ≤ (frame.drop 24).length := hbody
        rw [List.length_drop]
        omega
      · rw [List.take_append_drop]
        exact hframe

/-- The parts of a frame laid out as header, nonce, ciphertext and tag. -/
theorem parse_of_layout {header : FrameHeader} {nonce c t : Octets}
    (hheader : FrameHeader.parse frame = .ok header) (hnonceLen : header.nonceLen = 12)
    (hn : nonce.length = 12) (ht : t.length = 16)
    (hframe : frame = frame.take 12 ++ nonce ++ (c ++ t)) :
    parse header.algo frame = .ok ⟨frame.take 12, nonce, c ++ t⟩ := by
  have h12 : (frame.take 12).length = 12 := by
    rw [List.length_take, Nat.min_eq_left (FrameHeader.length_of_parse hheader)]
  have h24 : (frame.take 12 ++ nonce).length = 24 := by
    rw [List.length_append, h12, hn]
  have hlen : 40 ≤ frame.length := by
    rw [hframe, List.length_append, h24, List.length_append, ht]
    omega
  have hfront : frame.take 24 = frame.take 12 ++ nonce := by
    conv_lhs => rw [hframe, List.take_left' h24]
  have hrest : frame.drop 24 = c ++ t := by
    conv_lhs => rw [hframe, List.drop_left' h24]
  refine parse_eq_ok_iff.mpr ⟨header, hheader, rfl, hnonceLen, hlen, ?_⟩
  rw [hfront, hrest, List.drop_left' h12]

theorem ringOpenFrame_of_authenticates {supported : key.algo ≠ .ozDst1105} {header : FrameHeader}
    (h : Authenticates crate key header frame p) :
    ringOpenFrame crate ⟨key.algo, supported⟩ key frame = .ok p := by
  obtain ⟨hheader, hha, hhn, supported', k, n, c, t, hvariant, hmaterial, ht, hframe, hopens⟩ := h
  have hparse := parse_of_layout hheader hhn n.length_eq ht hframe
  rw [hha] at hparse
  have hk : Gcm.Key.new (key.algo.variant supported) key.material = some k := by
    obtain ⟨variant, material, hlength⟩ := k
    cases hvariant
    cases hmaterial
    exact Gcm.Key.new_eq_some hlength
  -- `open` cuts the tag off the end of the body
  have hc : (c ++ t).length - 16 = c.length := by
    rw [List.length_append, ht, Nat.add_sub_cancel]
  have hopen : AesGcm.openExact crate key.algo supported key n (frame.take 12) (c ++ t) =
      .ok p := by
    refine openExact_eq_ok_iff.mpr ⟨rfl, k, hk, ?_⟩
    rw [hc, List.take_left, List.drop_left]
    exact hopens
  unfold ringOpenFrame
  simp only [hparse, Gcm.Nonce.ofSlice_eq_some n.length_eq, hopen]

/-- A frame opens under a provider of the key's algorithm exactly when it authenticates. -/
theorem ringOpenFrame_eq_ok_iff (halgo : self.algo = key.algo) :
    ringOpenFrame crate self key frame = .ok p ↔
      ∃ header, Authenticates crate key header frame p := by
  obtain ⟨algo, supported⟩ := self
  subst halgo
  constructor
  · exact authenticates_of_ringOpenFrame
  · rintro ⟨header, h⟩
    exact ringOpenFrame_of_authenticates h

end Wire

namespace Cryptod

open Lib Exec Ipc

/-- In every state of a sequential run a decryption is answered with a plaintext exactly when there
is a key and the frame authenticates under it, its header as associated data. -/
theorem plaintext_iff_authenticates (crate : Gcm.Crate) (s₀ : CryptodState)
    (hnew : CryptodState.new = .ok s₀) (xs : List Exchange) (s : CryptodState)
    (hrun : Run (Handles crate) s₀ xs s) (elapsed : UInt64) (q : DecryptParams) (p : Octets) :
    (∃ t, (handle crate elapsed (.decrypt q)).run s = .ok (.plaintext p) t) ↔
      ∃ key header, s.activeKey = some key ∧
        Wire.Authenticates crate key header q.frame.data p := by
  have hcoherent := (run_coherent hnew hrun).1
  constructor
  · rintro ⟨t, h⟩
    obtain ⟨key, p', hkey, hopen, hrun'⟩ | ⟨code, message, t', -, hrun'⟩ :=
      handle_decrypt crate elapsed q s
    · rw [hrun'] at h
      cases h
      obtain ⟨header, hauth⟩ := (Wire.ringOpenFrame_eq_ok_iff (hcoherent.pairs hkey).1).mp hopen
      exact ⟨key, header, hkey, hauth⟩
    · rw [hrun'] at h
      cases h
  · rintro ⟨key, header, hkey, hauth⟩
    have hopen := (Wire.ringOpenFrame_eq_ok_iff (hcoherent.pairs hkey).1).mpr ⟨header, hauth⟩
    refine ⟨s.countOpened, ?_⟩
    rw [handle_decrypt_run crate hkey elapsed q, hopen]

namespace Kat

/-- The material of key 7 again, under id 8. -/
def rotateAgain : RotateKeyParams := { rotate256 with keyId := 8 }

/-- Key 7 is rotated in and seals a frame; then its material is rotated in as key 8. -/
def renamedRun : List Exchange :=
  [⟨.rotateKey rotate256, 0, .ok⟩, ⟨.encrypt encryptText, 0, .ciphertext Gcm.Kat.frame256⟩,
    ⟨.rotateKey rotateAgain, 0, .ok⟩]

def renamed : CryptodState :=
  ⟨provider256, .aes256Gcm, some ⟨8, .aes256Gcm, Gcm.Kat.material256⟩, 1, 0, 0⟩

def header7 : Wire.FrameHeader := ⟨1, 0, 7, .aes256Gcm, 12⟩

theorem renamed_run : Run (Handles Gcm.kat) fresh renamedRun renamed :=
  ((Run.single (t := rotated) (by rfl)).snoc (u := rotated.countSealed) (by rfl)).snoc (by rfl)

end Kat

theorem plaintext_iff_authenticates_kat : ∃ key header, Kat.renamed.activeKey = some key ∧
    Wire.Authenticates Gcm.kat key header Gcm.Kat.frame256 Gcm.Kat.text :=
  (plaintext_iff_authenticates Gcm.kat Kat.fresh rfl Kat.renamedRun Kat.renamed Kat.renamed_run 0
    Kat.decryptFrame Gcm.Kat.text).mp ⟨Kat.renamed.countOpened, by rfl⟩

/-- A frame that names key 7 is decrypted while key 8 is the active one. -/
theorem opens_under_other_id :
    Run (Handles Gcm.kat) Kat.fresh Kat.renamedRun Kat.renamed ∧
    (handle Gcm.kat 0 (.decrypt Kat.decryptFrame)).run Kat.renamed =
      .ok (.plaintext Gcm.Kat.text) Kat.renamed.countOpened ∧
    (Wire.FrameHeader.decode Kat.decryptFrame.frame.data).run () = .ok Kat.header7 () ∧
    Kat.renamed.activeKey.map KeyHandle.id ≠ some Kat.header7.keyId :=
  ⟨Kat.renamed_run, by rfl, by rfl, by decide⟩

end Cryptod

end SmartSfp
