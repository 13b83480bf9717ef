import SmartSfp.Crypto.Kat
import SmartSfp.Cryptod.Handler
import SmartSfp.Lib.Run

/-!
# Sequential — the daemon with one request at a time

A run is a sequence of exchanges.  The key in force, and with it provider and algorithm, is that of
the last rotation answered `Ok`; nothing else an exchange does can change it.
-/

namespace SmartSfp

namespace Cryptod

open Lib Exec Ipc

/-- A request, the uptime read while it was handled, and its response. -/
structure Exchange where
  request : Request
  elapsed : UInt64
  response : Response
  deriving DecidableEq

/-- The request is handled with nothing else in flight. -/
def Handles (crate : Gcm.Crate) (s : CryptodState) (x : Exchange) (t : CryptodState) : Prop :=
  (handle crate x.elapsed x.request).run s = .ok x.response t

/-- A `RotateKey` answered `Ok`. -/
def Exchange.RotatedOk (x : Exchange) : Prop :=
  ∃ p, x.request = .rotateKey p ∧ x.response = .ok

/-- The key a `RotateKey` answered `Ok` asked for. -/
def Exchange.rotated (x : Exchange) : Option KeyHandle :=
  match x.request, x.response with
  | .rotateKey p, .ok =>
    (AlgoId.fromU8 p.algo).map fun algo => ⟨p.keyId, algo, p.material.data⟩
  | _, _ => none

/-- The key of the last `RotateKey` answered `Ok`. -/
def lastRotated (xs : List Exchange) : Option KeyHandle :=
  xs.foldl (fun last x => x.rotated.or last) none

theorem lastRotated_concat (xs : List Exchange) (x : Exchange) :
    lastRotated (xs ++ [x]) = x.rotated.or (lastRotated xs) := by
  rw [lastRotated, List.foldl_append]
  rfl

theorem Exchange.rotated_eq_none {x : Exchange} (h : ¬ x.RotatedOk) : x.rotated = none := by
  unfold rotated
  split
  · rename_i p hreq hresp
    exact absurd ⟨p, hreq, hresp⟩ h
  · rfl

variable {crate : Gcm.Crate} {s t u : CryptodState} {x : Exchange}

/-- The state after the three stores of a rotation. -/
def CryptodState.commit (s : CryptodState) (c : Commit) : CryptodState :=
  { s with provider := c.newProvider, activeAlgo := c.newAlgo, activeKey := some c.newKey }

/-- `t` has the provider, the algorithm and the key of `s`. -/
def SameKey (s t : CryptodState) : Prop :=
  t.provider = s.provider ∧ t.activeAlgo = s.activeAlgo ∧ t.activeKey = s.activeKey

theorem SameKey.refl (s : CryptodState) : SameKey s s := ⟨rfl, rfl, rfl⟩

theorem SameKey.trans (h : SameKey s t) (h' : SameKey t u) : SameKey s u :=
  ⟨h'.1.trans h.1, h'.2.1.trans h.2.1, h'.2.2.trans h.2.2⟩

variable (crate)

theorem handle_getStatus (elapsed : UInt64) (s : CryptodState) :
    (handle crate elapsed .getStatus).run s = .ok (.status (report elapsed s.activeAlgo s)) s := rfl

theorem handle_rotateKey (elapsed : UInt64) (p : RotateKeyParams) (s : CryptodState) :
    (∃ c, c.For p ∧ (handle crate elapsed (.rotateKey p)).run s = .ok .ok (s.commit c)) ∨
    ∃ code message, (handle crate elapsed (.rotateKey p)).run s = .ok (.error code message) s := by
  cases h : (rotatePrepare crate p : Exec CryptodState Response Commit).run s with
  | ok c t =>
    obtain ⟨rfl, hfor⟩ := rotatePrepare_eq_ok crate h
    refine .inl ⟨c, hfor, run_returning_ok ?_⟩
    rw [run_bind, h]
    rfl
  | err r t =>
    obtain ⟨rfl, code, message, rfl⟩ := rotatePrepare_eq_err crate h
    refine .inr ⟨code, message, run_returning_err ?_⟩
    rw [run_bind, h]
    rfl
  | panic r =>
    have hreturns := (rotatePrepare_detached crate p).returns s
    rw [h] at hreturns
    exact absurd hreturns (Outcome.not_returns_panic r)

theorem handle_encrypt_run {s : CryptodState} {key : KeyHandle} (hkey : s.activeKey = some key)
    (elapsed : UInt64) {p : EncryptParams} (hn : p.nonce.data.length = 12) :
    (handle crate elapsed (.encrypt p)).run s =
      match Wire.ringSealFrame crate s.provider key ⟨p.nonce.data, hn⟩ p.plaintext.data with
      | .ok frame => .ok (.ciphertext frame) s.countSealed
      | .error e =>
        .ok (.error 500 s!"seal failed: {(Wire.WireError.crypto e).display}") s.countError := by
  have hrun : (handleEncrypt crate p).run s =
      (sealRequest (s.provider.toProvider crate) key p).run s := by
    simp only [handleEncrypt, run_bind, run_get, Outcome.bind_ok, hkey, run_okOr_some]
  rw [sealRequest_run crate s.provider key hn] at hrun
  cases hseal : Wire.ringSealFrame crate s.provider key ⟨p.nonce.data, hn⟩ p.plaintext.data with
  | ok frame =>
    rw [hseal] at hrun
    exact run_returning_ok hrun
  | error e =>
    rw [hseal] at hrun
    exact run_returning_ok hrun

theorem handle_decrypt_run {s : CryptodState} {key : KeyHandle} (hkey : s.activeKey = some key)
    (elapsed : UInt64) (p : DecryptParams) :
    (handle crate elapsed (.decrypt p)).run s =
      match Wire.ringOpenFrame crate s.provider key p.frame.data with
      | .ok plaintext => .ok (.plaintext plaintext) s.countOpened
      | .error e =>
        .ok (.error (openCode e) s!"open failed: {e.display}") s.countError := by
  have hrun : (handleDecrypt crate p).run s =
      (openRequest (s.provider.toProvider crate) key p).run s := by
    simp only [handleDecrypt, run_bind, run_get, Outcome.bind_ok, hkey, run_okOr_some]
  rw [openRequest_run crate s.provider key] at hrun
  cases hopen : Wire.ringOpenFrame crate s.provider key p.frame.data with
  | ok plaintext =>
    rw [hopen] at hrun
    exact run_returning_ok hrun
  | error e =>
    rw [hopen] at hrun
    exact run_returning_ok hrun

/-- An encryption is answered with a frame, or with an error. -/
theorem handle_encrypt (elapsed : UInt64) (p : EncryptParams) (s : CryptodState) :
    (∃ key, ∃ hn : p.nonce.data.length = 12, ∃ frame, s.activeKey = some key ∧
      Wire.ringSealFrame crate s.provider key ⟨p.nonce.data, hn⟩ p.plaintext.data = .ok frame ∧
      (handle crate elapsed (.encrypt p)).run s = .ok (.ciphertext frame) s.countSealed) ∨
    ∃ code message t, SameKey s t ∧
      (handle crate elapsed (.encrypt p)).run s = .ok (.error code message) t := by
  cases hkey : s.activeKey with
  | none =>
    refine .inr ⟨409, "no active key — call rotate_key first", s, .refl s, run_returning_err ?_⟩
    simp only [handleEncrypt, run_bind, run_get, Outcome.bind_ok, hkey, run_okOr_none,
      Outcome.bind_err]
  | some key =>
    by_cases hn : p.nonce.data.length = 12
    · have hrun := handle_encrypt_run crate hkey elapsed hn
      cases hseal : Wire.ringSealFrame crate s.provider key ⟨p.nonce.data, hn⟩
          p.plaintext.data with
      | ok frame =>
        rw [hseal] at hrun
        exact .inl ⟨key, hn, frame, rfl, hseal, hrun⟩
      | error e =>
        rw [hseal] at hrun
        exact .inr ⟨500, _, s.countError, ⟨rfl, rfl, rfl⟩, hrun⟩
    · have hrun : (handleEncrypt crate p).run s =
          .err (nonceRefusal p.nonce.data.length s.provider.algo) s := by
        simp only [handleEncrypt, run_bind, run_get, Outcome.bind_ok, hkey, run_okOr_some]
        exact sealRequest_run_nonce key _ hn s
      exact .inr ⟨422, _, s, .refl s, run_returning_err hrun⟩

/-- A decryption is answered with the plaintext of the frame, or with an error. -/
theorem handle_decrypt (elapsed : UInt64) (p : DecryptParams) (s : CryptodState) :
    (∃ key plaintext, s.activeKey = some key ∧
      Wire.ringOpenFrame crate s.provider key p.frame.data = .ok plaintext ∧
      (handle crate elapsed (.decrypt p)).run s = .ok (.plaintext plaintext) s.countOpened) ∨
    ∃ code message t, SameKey s t ∧
      (handle crate elapsed (.decrypt p)).run s = .ok (.error code message) t := by
  cases hkey : s.activeKey with
  | none =>
    refine .inr ⟨409, "no active key", s, .refl s, run_returning_err ?_⟩
    simp only [handleDecrypt, run_bind, run_get, Outcome.bind_ok, hkey, run_okOr_none,
      Outcome.bind_err]
  | some key =>
    have hrun := handle_decrypt_run crate hkey elapsed p
    cases hopen : Wire.ringOpenFrame crate s.provider key p.frame.data with
    | ok plaintext =>
      rw [hopen] at hrun
      exact .inl ⟨key, plaintext, rfl, hopen, hrun⟩
    | error e =>
      rw [hopen] at hrun
      exact .inr ⟨openCode e, _, s.countError, ⟨rfl, rfl, rfl⟩, hrun⟩

/-- Every request is answered. -/
theorem handle_returns (elapsed : UInt64) (req : Request) (s : CryptodState) :
    ∃ response t, (handle crate elapsed req).run s = .ok response t := by
  cases req with
  | getStatus => exact ⟨_, _, rfl⟩
  | setPolicy p => exact ⟨_, _, rfl⟩
  | rotateKey p =>
    obtain ⟨c, -, h⟩ | ⟨code, message, h⟩ := handle_rotateKey crate elapsed p s
    · exact ⟨_, _, h⟩
    · exact ⟨_, _, h⟩
  | encrypt p =>
    obtain ⟨key, hn, frame, -, -, h⟩ | ⟨code, message, t, -, h⟩ := handle_encrypt crate elapsed p s
    · exact ⟨_, _, h⟩
    · exact ⟨_, _, h⟩
  | decrypt p =>
    obtain ⟨key, plaintext, -, -, h⟩ | ⟨code, message, t, -, h⟩ :=
      handle_decrypt crate elapsed p s
    · exact ⟨_, _, h⟩
    · exact ⟨_, _, h⟩

variable {crate}

/-- Everything an exchange can do to the key in force. -/
theorem handles_cases (h : Handles crate s x t) :
    (¬ x.RotatedOk ∧ SameKey s t) ∨
    ∃ p c, x.request = .rotateKey p ∧ x.response = .ok ∧ c.For p ∧ t = s.commit c := by
  obtain ⟨req, elapsed, response⟩ := x
  change (handle crate elapsed req).run s = .ok response t at h
  cases req with
  | getStatus =>
    cases h
    exact .inl ⟨fun ⟨_, hreq, _⟩ => Request.noConfusion hreq, .refl _⟩
  | setPolicy p =>
    cases h
    exact .inl ⟨fun ⟨_, hreq, _⟩ => Request.noConfusion hreq, .refl _⟩
  | rotateKey p =>
    obtain ⟨c, hfor, hrun⟩ | ⟨code, message, hrun⟩ := handle_rotateKey crate elapsed p s
    · rw [hrun] at h
      cases h
      exact .inr ⟨p, c, rfl, rfl, hfor, rfl⟩
    · rw [hrun] at h
      cases h
      exact .inl ⟨fun ⟨_, _, hresp⟩ => Response.noConfusion hresp, .refl _⟩
  | encrypt p =>
    refine .inl ⟨fun ⟨_, hreq, _⟩ => Request.noConfusion hreq, ?_⟩
    obtain ⟨key, hn, frame, -, -, hrun⟩ | ⟨code, message, u, hsame, hrun⟩ :=
      handle_encrypt crate elapsed p s
    · rw [hrun] at h
      cases h
      exact ⟨rfl, rfl, rfl⟩
    · rw [hrun] at h
      cases h
      exact hsame
  | decrypt p =>
    refine .inl ⟨fun ⟨_, hreq, _⟩ => Request.noConfusion hreq, ?_⟩
    obtain ⟨key, plaintext, -, -, hrun⟩ | ⟨code, message, u, hsame, hrun⟩ :=
      handle_decrypt crate elapsed p s
    · rw [hrun] at h
      cases h
      exact ⟨rfl, rfl, rfl⟩
    · rw [hrun] at h
      cases h
      exact hsame

/-- The state agrees with itself about the algorithm, and with its key if it has one. -/
structure CryptodState.Coherent (s : CryptodState) : Prop where
  provider_eq : s.provider.algo = s.activeAlgo
  key_eq : ∀ key, s.activeKey = some key →
    s.activeAlgo = key.algo ∧ key.material.length = s.activeAlgo.keyLen

/-- In a coherent state the provider has the algorithm of the key, and the key its length. -/
theorem CryptodState.Coherent.pairs (h : s.Coherent) {key : KeyHandle}
    (hkey : s.activeKey = some key) : s.provider.algo = key.algo ∧ key.WellFormed := by
  obtain ⟨halgo, hlen⟩ := h.key_eq key hkey
  exact ⟨h.provider_eq.trans halgo, hlen.trans (congrArg AlgoId.keyLen halgo)⟩

theorem coherent_new (h : CryptodState.new = .ok s) : s.Coherent := by
  cases h
  exact ⟨rfl, fun key hkey => by cases hkey⟩

theorem Commit.For.coherent {p : RotateKeyParams} {c : Commit} (h : c.For p)
    (s : CryptodState) : (s.commit c).Coherent where
  provider_eq := h.provider_eq
  key_eq key hkey := by
    cases hkey
    have halgo : c.newKey.algo = c.newAlgo := by rw [h.key_eq]
    exact ⟨halgo.symm, h.wellFormed.trans (congrArg AlgoId.keyLen halgo)⟩

theorem SameKey.coherent (h : SameKey s t) (hs : s.Coherent) : t.Coherent where
  provider_eq := by
    rw [h.1, h.2.1]
    exact hs.provider_eq
  key_eq key hkey := by
    rw [h.2.2] at hkey
    rw [h.2.1]
    exact hs.key_eq key hkey

/-- In every state reached the key is that of the last rotation answered `Ok`, and provider and
algorithm are the key's. -/
theorem run_coherent {s₀ : CryptodState} (hnew : CryptodState.new = .ok s₀) {xs : List Exchange}
    (hrun : Run (Handles crate) s₀ xs s) : s.Coherent ∧ s.activeKey = lastRotated xs := by
  induction hrun with
  | nil =>
    refine ⟨coherent_new hnew, ?_⟩
    cases hnew
    rfl
  | snoc _ hlast ih =>
    rw [lastRotated_concat]
    obtain ⟨hnot, hsame⟩ | ⟨p, c, hreq, hresp, hfor, rfl⟩ := handles_cases hlast
    · refine ⟨hsame.coherent ih.1, ?_⟩
      rw [Exchange.rotated_eq_none hnot, Option.none_or, hsame.2.2]
      exact ih.2
    · refine ⟨hfor.coherent _, ?_⟩
      simp only [Exchange.rotated, hreq, hresp, hfor.algo_eq, Option.map_some, Option.some_or]
      exact congrArg some hfor.key_eq

/-- After a rotation answered `Ok` there is a key. -/
theorem exists_key_of_rotatedOk {xs : List Exchange} (hrun : Run (Handles crate) s xs t)
    (hrot : ∃ x ∈ xs, x.RotatedOk) : ∃ key, t.activeKey = some key := by
  induction hrun with
  | nil =>
    obtain ⟨x, hx, -⟩ := hrot
    cases hx
  | snoc _ hlast ih =>
    obtain ⟨hnot, hsame⟩ | ⟨p, c, -, -, -, rfl⟩ := handles_cases hlast
    · obtain ⟨x, hx, hok⟩ := hrot
      rcases List.mem_append.mp hx with hx | hx
      · rw [hsame.2.2]
        exact ih ⟨x, hx, hok⟩
      · rw [List.mem_singleton.mp hx] at hok
        exact absurd hok hnot
    · exact ⟨c.newKey, rfl⟩

/-- Exchanges without a rotation answered `Ok` leave the key in force. -/
theorem run_sameKey {ys : List Exchange} (hrun : Run (Handles crate) s ys t)
    (hnot : ∀ y ∈ ys, ¬ y.RotatedOk) : SameKey s t := by
  induction hrun with
  | nil => exact .refl s
  | snoc _ hlast ih =>
    have hsame := ih fun y hy => hnot y (List.mem_append_left _ hy)
    obtain ⟨-, hstep⟩ | ⟨p, c, hreq, hresp, -, -⟩ := handles_cases hlast
    · exact hsame.trans hstep
    · exact absurd ⟨p, hreq, hresp⟩ (hnot _ (List.mem_append_right _ (List.mem_singleton_self _)))

/-- Over a correct crate a frame the daemon sealed opens as long as the key stays in force. -/
theorem decrypt_of_encrypt (hcorrect : crate.aead.Correct) {elapsed : UInt64} {p : EncryptParams}
    {frame : Octets}
    (hencrypt : (handle crate elapsed (.encrypt p)).run s = .ok (.ciphertext frame) t)
    (hsame : SameKey t u) (elapsed' : UInt64) {q : DecryptParams} (hq : q.frame.data = frame) :
    (handle crate elapsed' (.decrypt q)).run u =
      .ok (.plaintext p.plaintext.data) u.countOpened := by
  obtain ⟨key, hn, frame', hkey, hseal, hrun⟩ | ⟨code, message, t', -, hrun⟩ :=
    handle_encrypt crate elapsed p s
  · rw [hrun] at hencrypt
    cases hencrypt
    have hopen := Wire.ringOpenFrame_of_ringSealFrame crate s.provider key hcorrect hseal
    rw [handle_decrypt_run crate (hsame.2.2.trans hkey) elapsed' q, hq, hsame.1]
    change (match Wire.ringOpenFrame crate s.provider key frame with
      | .ok plaintext => _
      | .error e => _) = _
    rw [hopen]
  · rw [hrun] at hencrypt
    cases hencrypt

/-- The daemon with one request at a time, from `CryptodState::new`.  In every state reached the key
in force is that of the last rotation answered `Ok`, provider, algorithm and key agree, and
`GetStatus` reports them.  Over a primitive that seals what is admissible and opens what it sealed,
an encryption in a state with a key is answered with a frame 40 bytes longer than the plaintext,
and that frame decrypts to the plaintext until the next rotation answered `Ok`. -/
theorem sequential_correct (crate : Gcm.Crate) (s₀ : CryptodState)
    (hnew : CryptodState.new = .ok s₀) (xs : List Exchange) (s : CryptodState)
    (hrun : Run (Handles crate) s₀ xs s) :
    s.activeKey = lastRotated xs ∧
    (∀ key, s.activeKey = some key →
      (s.provider.toProvider crate).algorithm = s.activeAlgo ∧ s.activeAlgo = key.algo ∧
        key.material.length = s.activeAlgo.keyLen) ∧
    (∀ elapsed key, lastRotated xs = some key →
      ∃ r, (handle crate elapsed .getStatus).run s = .ok (.status r) s ∧
        r.activeKeyId = some key.id ∧ r.activeProvider = providerName key.algo) ∧
    ∀ admissible, crate.aead.Correct → crate.aead.SealsOn admissible → ∀ p : EncryptParams,
      p.nonce.data.length = s.activeAlgo.nonceLen → admissible p.plaintext.data →
      (∀ key, s.activeKey = some key → ∀ elapsed, ∃ frame t,
        (handle crate elapsed (.encrypt p)).run s = .ok (.ciphertext frame) t ∧
          frame.length = p.plaintext.data.length + 40) ∧
      ∀ elapsed frame t, (handle crate elapsed (.encrypt p)).run s = .ok (.ciphertext frame) t →
        ∀ ys u, Run (Handles crate) t ys u → (∀ y ∈ ys, ¬ y.RotatedOk) →
          ∀ q : DecryptParams, q.frame.data = frame → ∀ elapsed', ∃ v,
            (handle crate elapsed' (.decrypt q)).run u = .ok (.plaintext p.plaintext.data) v := by
  obtain ⟨hcoherent, hlast⟩ := run_coherent hnew hrun
  refine ⟨hlast, ?_, ?_, ?_⟩
  · intro key hkey
    obtain ⟨halgo, hlen⟩ := hcoherent.key_eq key hkey
    exact ⟨hcoherent.provider_eq, halgo, hlen⟩
  · intro elapsed key hkey
    rw [← hlast] at hkey
    refine ⟨report elapsed s.activeAlgo s, handle_getStatus crate elapsed s, ?_, ?_⟩
    · simp only [report, hkey, Option.map_some]
    · rw [← (hcoherent.key_eq key hkey).1]
      rfl
  · intro admissible hcorrect hseals p hn hadm
    rw [AlgoId.nonceLen_eq] at hn
    constructor
    · intro key hkey elapsed
      obtain ⟨halgo, hwf⟩ := hcoherent.pairs hkey
      obtain ⟨frame, hframe⟩ :=
        Wire.exists_ringSealFrame hseals halgo hwf ⟨p.nonce.data, hn⟩ hadm
      refine ⟨frame, s.countSealed, ?_, Wire.ringSealFrame_length crate s.provider key hframe⟩
      rw [handle_encrypt_run crate hkey elapsed hn, hframe]
    · intro elapsed frame t hencrypt ys u hys hnot q hq elapsed'
      exact ⟨_, decrypt_of_encrypt hcorrect hencrypt (run_sameKey hys hnot) elapsed' hq⟩

namespace Kat

def payload (data : Octets) (h : base64Len data.length ≤ isizeMax := by decide) : Payload :=
  ⟨data, h⟩

/-- `RotateKey` to key 7. -/
def rotate256 : RotateKeyParams := ⟨7, 2, payload Gcm.Kat.material256⟩

/-- `RotateKey` to key 9. -/
def rotate128 : RotateKeyParams := ⟨9, 1, payload Gcm.Kat.material128⟩

def encryptText : EncryptParams where
  nonce := payload Gcm.Kat.nonce
  aad := .empty
  plaintext := payload Gcm.Kat.text

def decryptFrame : DecryptParams := ⟨payload Gcm.Kat.frame256⟩

def provider256 : AesGcmRingProvider := ⟨.aes256Gcm, AlgoId.aes256Gcm_ne⟩

def provider128 : AesGcmRingProvider := ⟨.aes128Gcm, AlgoId.aes128Gcm_ne⟩

/-- The daemon as it starts. -/
def fresh : CryptodState := ⟨provider256, .aes256Gcm, none, 0, 0, 0⟩

/-- After the rotation to key 7. -/
def rotated : CryptodState := ⟨provider256, .aes256Gcm, some Gcm.Kat.handle256, 0, 0, 0⟩

end Kat

/-- Rotate to key 7, encrypt, and decrypt after a rotation that was refused. -/
theorem sequential_correct_kat :
    ∃ v, (handle Gcm.kat 0 (.decrypt Kat.decryptFrame)).run Kat.rotated.countSealed =
      .ok (.plaintext Gcm.Kat.text) v := by
  have hrotate : Run (Handles Gcm.kat) Kat.fresh [⟨.rotateKey Kat.rotate256, 0, .ok⟩]
      Kat.rotated := Run.single (by rfl)
  obtain ⟨-, -, -, htrip⟩ := sequential_correct Gcm.kat Kat.fresh rfl _ _ hrotate
  have hrefused : Run (Handles Gcm.kat) Kat.rotated.countSealed
      [⟨.rotateKey { Kat.rotate256 with algo := 0x10 }, 0,
        .error 501 "O'z DSt 1105 provider not yet implemented"⟩] Kat.rotated.countSealed :=
    Run.single (by rfl)
  refine (htrip (fun _ => True) Gcm.kat_correct (Gcm.ofTable_sealsOn _ _ _) Kat.encryptText rfl
    trivial).2 0 Gcm.Kat.frame256 _ (by rfl) _ _ hrefused ?_ Kat.decryptFrame rfl 0
  intro y hy
  rw [List.mem_singleton.mp hy]
  rintro ⟨p, -, hresp⟩
  cases hresp

end Cryptod

end SmartSfp
