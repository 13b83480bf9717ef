import SmartSfp.Cryptod.Sequential

/-!
# Aad — what the encryption handler authenticates

`EncryptParams` carries associated data "included in tag".  `probe` is a provider that refuses a
seal in one way when the associated data is a given byte string and in another when it is not, so
that the handler's answer shows what it passed: the twelve header bytes, whatever the request says.
-/

namespace SmartSfp

namespace Cryptod

open Lib Exec Ipc

/-- The error of the probe: it tells whether the associated data was `expected`. -/
def verdict (expected aad : Octets) : CryptoError :=
  if aad = expected then .authFailed else .io "not the expected data"

/-- Refuses every seal, with its verdict on the associated data. -/
def probe (algo : AlgoId) (expected : Octets) : CryptoProvider where
  algorithm := algo
  seal_ _ _ aad _ := fail (verdict expected aad)
  open_ _ _ _ _ := fail .authFailed
  seal_keeps _ _ _ _ := keeps_fail _
  open_keeps _ _ _ _ := keeps_fail _

/-- The handler passes `aad` to `provider.seal` when it answers the request. -/
def PassesAad (algo : AlgoId) (key : KeyHandle) (p : EncryptParams) (aad : Octets) : Prop :=
  ∀ st, (sealRequest (probe algo aad) key p).run st =
    .ok (.error 500 s!"seal failed: {(Wire.WireError.crypto .authFailed).display}") st.countError

/-- The associated data passed for `a₁` and for `a₂` differ. -/
def AadBound (algo : AlgoId) (key : KeyHandle) (nonce plaintext a₁ a₂ : Payload) : Prop :=
  ∃ x₁ x₂, PassesAad algo key ⟨nonce, a₁, plaintext⟩ x₁ ∧
    PassesAad algo key ⟨nonce, a₂, plaintext⟩ x₂ ∧ x₁ ≠ x₂

/-- Two requests that differ in `aad` only are one request to the handler. -/
theorem sealRequest_aad (provider : CryptoProvider) (key : KeyHandle)
    (nonce plaintext a₁ a₂ : Payload) :
    sealRequest provider key ⟨nonce, a₁, plaintext⟩ =
      sealRequest provider key ⟨nonce, a₂, plaintext⟩ := rfl

theorem handle_aad (crate : Gcm.Crate) (elapsed : UInt64) (nonce plaintext a₁ a₂ : Payload) :
    handle crate elapsed (.encrypt ⟨nonce, a₁, plaintext⟩) =
      handle crate elapsed (.encrypt ⟨nonce, a₂, plaintext⟩) := rfl

/-- Sealing for the probe comes to one call with the header as associated data. -/
theorem seal_run_probe (algo : AlgoId) (expected : Octets) (key : KeyHandle) {nonce : Octets}
    (hn : nonce.length = 12) {plaintext : Octets} (hfit : plaintext.length ≤ isizeMax)
    (out : Octets) (hout : out.length = plaintext.length + 40) :
    ∃ left, (Wire.seal_ (probe algo expected) key key.id nonce 0 plaintext).run out =
      .err (.crypto (verdict expected (Wire.sealHeader algo key.id 0).bytes)) left := by
  obtain ⟨front, body, rfl, hfront, -⟩ := exists_split (n := 24) (s := out) (by omega)
  have hbody : body.length = plaintext.length + 16 := by
    rw [List.length_append] at hout
    omega
  have hrun := Wire.seal_run (probe algo expected) key key.id 0 [] hn hfit hfront hbody
  rw [List.append_nil] at hrun
  refine ⟨(Wire.sealHeader algo key.id 0).bytes ++ nonce ++ body ++ [], ?_⟩
  rw [hrun]
  simp [probe]

theorem passesAad_iff (algo : AlgoId) (key : KeyHandle) (p : EncryptParams) (aad : Octets) :
    PassesAad algo key p aad ↔
      p.nonce.data.length = 12 ∧ aad = (Wire.sealHeader algo key.id 0).bytes := by
  by_cases hn : p.nonce.data.length = 12
  · have hfit := p.plaintext.length_le
    have hneed := Wire.add_lt_usizeSize hfit
    have hcount : 12 + 12 + p.plaintext.data.length + 16 = p.plaintext.data.length + 40 := by
      omega
    obtain ⟨left, hseal⟩ := seal_run_probe algo aad key hn hfit
      (List.replicate (p.plaintext.data.length + 40) 0) List.length_replicate
    have halgo : (probe algo aad).algorithm = algo := rfl
    have hrun (st : CryptodState) : (sealRequest (probe algo aad) key p).run st =
        .ok (.error 500 s!"seal failed: {(Wire.WireError.crypto
          (verdict aad (Wire.sealHeader algo key.id 0).bytes)).display}") st.countError := by
      simp only [sealRequest, halgo, AlgoId.nonceLen_eq, AlgoId.tagLen_eq, hn, ne_eq,
        not_true_eq_false, run_bind, run_failIf, if_false, Outcome.bind_ok,
        Wire.run_frameLen hneed, hcount, run_vec p.plaintext.length_add_le, callWith, hseal,
        run_modify, run_pure]
    constructor
    · intro h
      refine ⟨hn, ?_⟩
      by_contra hne
      have hst :=
        (hrun ⟨⟨.aes256Gcm, AlgoId.aes256Gcm_ne⟩, .aes256Gcm, none, 0, 0, 0⟩).symm.trans (h _)
      rw [verdict, if_neg (Ne.symm hne)] at hst
      revert hst
      decide
    · rintro ⟨-, rfl⟩ st
      rw [hrun, verdict, if_pos rfl]
  · constructor
    · intro h
      have hst := h ⟨⟨.aes256Gcm, AlgoId.aes256Gcm_ne⟩, .aes256Gcm, none, 0, 0, 0⟩
      rw [sealRequest_run_nonce key _ hn] at hst
      cases hst
    · rintro ⟨hn', -⟩
      exact absurd hn' hn

/-- The associated data of a request never reaches the tag: no two requests that differ in it are
told apart by what the handler authenticates, nor by what it answers under any provider. -/
theorem aad_never_bound (algo : AlgoId) (key : KeyHandle) (nonce plaintext a₁ a₂ : Payload) :
    ¬ AadBound algo key nonce plaintext a₁ a₂ ∧
    (∀ x, PassesAad algo key ⟨nonce, a₁, plaintext⟩ x ↔
      nonce.data.length = 12 ∧ x = (Wire.sealHeader algo key.id 0).bytes) ∧
    (∀ provider st, (sealRequest provider key ⟨nonce, a₁, plaintext⟩).run st =
      (sealRequest provider key ⟨nonce, a₂, plaintext⟩).run st) ∧
    ∀ crate elapsed st, (handle crate elapsed (.encrypt ⟨nonce, a₁, plaintext⟩)).run st =
      (handle crate elapsed (.encrypt ⟨nonce, a₂, plaintext⟩)).run st := by
  refine ⟨?_, fun x => passesAad_iff algo key _ x, fun provider st => ?_,
    fun crate elapsed st => ?_⟩
  · rintro ⟨x₁, x₂, h₁, h₂, hne⟩
    rw [passesAad_iff] at h₁ h₂
    exact hne (h₁.2.trans h₂.2.symm)
  · rw [sealRequest_aad provider key nonce plaintext a₁ a₂]
  · rw [handle_aad crate elapsed nonce plaintext a₁ a₂]

/-- Key 7, the same nonce and plaintext, and two associated data: one frame. -/
theorem aad_dropped :
    Kat.payload [] ≠ Kat.payload [1] ∧
    ¬ AadBound .aes256Gcm Gcm.Kat.handle256 (Kat.payload Gcm.Kat.nonce)
      (Kat.payload Gcm.Kat.text) (Kat.payload []) (Kat.payload [1]) ∧
    (handle Gcm.kat 0 (.encrypt ⟨Kat.payload Gcm.Kat.nonce, Kat.payload [],
        Kat.payload Gcm.Kat.text⟩)).run Kat.rotated =
      .ok (.ciphertext Gcm.Kat.frame256) Kat.rotated.countSealed ∧
    (handle Gcm.kat 0 (.encrypt ⟨Kat.payload Gcm.Kat.nonce, Kat.payload [1],
        Kat.payload Gcm.Kat.text⟩)).run Kat.rotated =
      .ok (.ciphertext Gcm.Kat.frame256) Kat.rotated.countSealed := by
  refine ⟨by decide, ?_, rfl, rfl⟩
  rintro ⟨x₁, x₂, h₁, h₂, hne⟩
  rw [passesAad_iff] at h₁ h₂
  exact hne (h₁.2.trans h₂.2.symm)

end Cryptod

end SmartSfp
