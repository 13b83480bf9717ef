import SmartSfp.Wire.RoundTrip

/-!
# Interchange — the two AES-GCM providers are interchangeable

The providers check their inputs in different orders and decrypt in different places.  Over crates
that compute the same AEAD, and for every handle `KeyHandle::new` builds, they still return the same
`Result` up to message texts, and leave the same buffer whenever they return `Ok`.
-/

namespace SmartSfp

open Lib Exec

namespace Lib

variable {σ ε ε' α β : Type}

/-- The same value and state on `Ok`, errors that `erase` does not tell apart on `Err`, no panic. -/
inductive Outcome.SameResult (erase : ε → ε) : Outcome σ ε α → Outcome σ ε α → Prop where
  | ok (a : α) (s : σ) : SameResult erase (.ok a s) (.ok a s)
  | err {e f : ε} (s t : σ) (herase : erase e = erase f) : SameResult erase (.err e s) (.err f t)

namespace Outcome.SameResult

variable {erase : ε → ε} {x y : Outcome σ ε α}

theorem symm (h : SameResult erase x y) : SameResult erase y x := by
  cases h with
  | ok a s => exact .ok a s
  | err s t herase => exact .err t s herase.symm

theorem mapState {τ : Type} (f : σ → τ) (h : SameResult erase x y) :
    SameResult erase (x.mapState f) (y.mapState f) := by
  cases h with
  | ok a s => exact .ok a (f s)
  | err s t herase => exact .err (f s) (f t) herase

theorem mapErr (erase' : ε' → ε') {f : ε → ε'} (h : SameResult erase x y)
    (hf : ∀ e, erase' (f e) = f (erase e)) : SameResult erase' (x.mapErr f) (y.mapErr f) := by
  cases h with
  | ok a s => exact .ok a s
  | err s t herase => exact .err s t (by rw [hf, hf, herase])

theorem bind {f : α → σ → Outcome σ ε β} (h : SameResult erase x y)
    (hf : ∀ a s, y = .ok a s → SameResult erase (f a s) (f a s)) :
    SameResult erase (x.bind f) (y.bind f) := by
  cases h with
  | ok a s => exact hf a s rfl
  | err s t herase => exact .err s t herase

theorem eq_ok (h : SameResult erase x y) {a : α} {s : σ} (hx : x = .ok a s) :
    y = .ok a s := by
  cases h with
  | ok b t => exact hx
  | err t u herase => cases hx

end Outcome.SameResult

end Lib

open Lib.Outcome (SameResult)

/-- The error with its message text blanked. -/
def CryptoError.erase : CryptoError → CryptoError
  | providerUnavailable _ => providerUnavailable ""
  | io _ => io ""
  | e => e

def Wire.WireError.erase : WireError → WireError
  | crypto e => crypto e.erase
  | e => e

namespace AesGcm

variable {swCrate ringCrate : Gcm.Crate} {algo : AlgoId} {supported : algo ≠ .ozDst1105}

theorem sealSpec_same (hagree : swCrate.Agrees ringCrate) (m₁ m₂ : String) (key : KeyHandle)
    (nonce aad plaintext out : Octets) :
    SameResult CryptoError.erase
      (sealSpec swCrate algo supported m₁ key nonce aad plaintext out)
      (sealSpec ringCrate algo supported m₂ key nonce aad plaintext out) := by
  unfold sealSpec
  rw [hagree.1]
  split
  · exact .err _ _ rfl
  · cases Gcm.Nonce.ofSlice nonce with
    | none => exact .err _ _ rfl
    | some n =>
      simp only
      split
      · exact .err _ _ rfl
      · cases Gcm.Key.new (algo.variant supported) key.material with
        | none => exact .err _ _ rfl
        | some k =>
          simp only
          cases ringCrate.sealDetached k n aad plaintext with
          | none => exact .err _ _ rfl
          | some sealed => exact .ok _ _

theorem openSpec_same (hagree : swCrate.Agrees ringCrate)
    (leave₁ leave₂ : Gcm.Key → Gcm.Nonce → (aad c t out : Octets) → Octets) (key : KeyHandle)
    (nonce aad body out : Octets) :
    SameResult CryptoError.erase
      (openSpec swCrate algo supported leave₁ key nonce aad body out)
      (openSpec ringCrate algo supported leave₂ key nonce aad body out) := by
  unfold openSpec
  rw [hagree.2]
  split
  · exact .err _ _ rfl
  · split
    · exact .err _ _ rfl
    · cases Gcm.Nonce.ofSlice nonce with
      | none => exact .err _ _ rfl
      | some n =>
        simp only
        split
        · exact .err _ _ rfl
        · cases Gcm.Key.new (algo.variant supported) key.material with
          | none => exact .err _ _ rfl
          | some k =>
            simp only
            cases ringCrate.openDetached k n aad (body.take (body.length - 16))
                (body.drop (body.length - 16)) with
            | none => exact .err _ _ rfl
            | some p => exact .ok _ _

end AesGcm

/-- Two providers no caller can tell apart but by message texts, on one key. -/
structure CryptoProvider.SameOn (p q : CryptoProvider) (key : KeyHandle) : Prop where
  algorithm_eq : p.algorithm = q.algorithm
  seal_same : ∀ nonce aad (plaintext : Slice UInt8) out,
    SameResult CryptoError.erase ((p.seal_ key nonce aad plaintext.data).run out)
      ((q.seal_ key nonce aad plaintext.data).run out)
  open_same : ∀ nonce aad body out,
    SameResult CryptoError.erase ((p.open_ key nonce aad body).run out)
      ((q.open_ key nonce aad body).run out)

theorem CryptoProvider.SameOn.symm {p q : CryptoProvider} {key : KeyHandle}
    (h : p.SameOn q key) : q.SameOn p key where
  algorithm_eq := h.algorithm_eq.symm
  seal_same nonce aad plaintext out := (h.seal_same nonce aad plaintext out).symm
  open_same nonce aad body out := (h.open_same nonce aad body out).symm

theorem AesGcmSwProvider.sameOn_ring {swCrate ringCrate : Gcm.Crate}
    (hagree : swCrate.Agrees ringCrate) {algo : AlgoId} (supported : algo ≠ .ozDst1105)
    {key : KeyHandle} (hkey : key.WellFormed) :
    ((AesGcmSwProvider.mk algo supported).toProvider swCrate).SameOn
      ((AesGcmRingProvider.mk algo supported).toProvider ringCrate) key where
  algorithm_eq := rfl
  seal_same nonce aad plaintext out := by
    change SameResult _ ((AesGcmSwProvider.seal_ _ _ _ _ _ _).run _)
      ((AesGcmRingProvider.seal_ _ _ _ _ _ _).run _)
    rw [AesGcmSwProvider.seal_run _ _ hkey _ _ _ _ plaintext.length_le,
      AesGcmRingProvider.seal_run _ _ _ _ _ _ _ plaintext.length_le]
    exact AesGcm.sealSpec_same hagree _ _ _ _ _ _ _
  open_same nonce aad body out := by
    change SameResult _ ((AesGcmSwProvider.open_ _ _ _ _ _ _).run _)
      ((AesGcmRingProvider.open_ _ _ _ _ _ _).run _)
    rw [AesGcmSwProvider.open_run _ _ hkey, AesGcmRingProvider.open_run]
    exact AesGcm.openSpec_same hagree _ _ _ _ _ _ _

theorem exists_new_eq_ok {algo : AlgoId} {sw : AesGcmSwProvider} {ring : AesGcmRingProvider}
    (hsw : AesGcmSwProvider.new algo = .ok sw) (hring : AesGcmRingProvider.new algo = .ok ring) :
    ∃ supported, sw = ⟨algo, supported⟩ ∧ ring = ⟨algo, supported⟩ := by
  cases algo with
  | aes128Gcm =>
    cases hsw
    cases hring
    exact ⟨by decide, rfl, rfl⟩
  | aes256Gcm =>
    cases hsw
    cases hring
    exact ⟨by decide, rfl, rfl⟩
  | ozDst1105 => cases hsw

namespace Wire

variable {p q : CryptoProvider} {key : KeyHandle}

theorem seal_same (h : p.SameOn q key) (hwrites : q.WritesSealed) (keyId : UInt32)
    (nonce : Octets) (flags : UInt8) (plaintext : Slice UInt8) (out : Octets) :
    SameResult WireError.erase ((seal_ p key keyId nonce flags plaintext.data).run out)
      ((seal_ q key keyId nonce flags plaintext.data).run out) := by
  by_cases hn : nonce.length = 12
  · by_cases hroom : out.length < plaintext.data.length + 40
    · rw [seal_run_small hn plaintext.length_le hroom,
        seal_run_small hn plaintext.length_le hroom]
      exact .err _ _ rfl
    · obtain ⟨front, rest, rfl, hfront, -⟩ := exists_split (n := 24) (s := out) (by omega)
      rw [List.length_append] at hroom
      obtain ⟨body, slack, rfl, hbody, -⟩ :=
        exists_split (n := plaintext.data.length + 16) (s := rest) (by omega)
      rw [← List.append_assoc, seal_run p _ _ _ _ hn plaintext.length_le hfront hbody,
        seal_run q _ _ _ _ hn plaintext.length_le hfront hbody, h.algorithm_eq]
      have hcall := h.seal_same nonce (sealHeader q.algorithm keyId flags).bytes plaintext body
      refine ((hcall.mapState _).mapErr WireError.erase fun e => rfl).bind ?_
      intro written t hok
      have hwritten : written = plaintext.data.length + 16 := by
        cases hseal : (q.seal_ key nonce (sealHeader q.algorithm keyId flags).bytes
            plaintext.data).run body with
        | ok n w =>
          rw [hseal] at hok
          cases hok
          exact (hwrites hseal).1.trans (by rw [AlgoId.tagLen_eq])
        | err e w =>
          rw [hseal] at hok
          cases hok
        | panic r =>
          rw [hseal] at hok
          cases hok
      have hfits := add_lt_usizeSize plaintext.length_le
      rw [run_addUsize (by omega)]
      exact .ok _ _
  · rw [seal_run_nonce hn, seal_run_nonce hn]
    exact .err _ _ rfl

theorem open_same (h : p.SameOn q key) (frame out : Octets) :
    SameResult WireError.erase ((open_ p key frame).run out) ((open_ q key frame).run out) := by
  rw [open_run, open_run, h.algorithm_eq]
  cases parse q.algorithm frame with
  | error e => exact .err _ _ rfl
  | ok parts =>
    simp only
    split
    · exact .err _ _ rfl
    · exact (h.open_same _ _ _ _).mapErr WireError.erase fun e => rfl

/-- What one provider sealed, the other opens. -/
theorem open_of_seal_same (h : p.SameOn q key) (hconf : q.Conforms)
    {keyId : UInt32} {nonce : Octets} {flags : UInt8} {plaintext : Slice UInt8}
    {out out' : Octets} {n : Nat}
    (hseal : (seal_ p key keyId nonce flags plaintext.data).run out = .ok n out') {buf : Octets}
    (hbuf : plaintext.data.length ≤ buf.length) :
    ∃ buf', (open_ q key (out'.take n)).run buf = .ok plaintext.data.length buf' ∧
      buf'.take plaintext.data.length = plaintext.data :=
  open_of_seal hconf ((seal_same h hconf.writes keyId nonce flags plaintext out).eq_ok hseal) hbuf

end Wire

/-- The software and the `ring` provider of one algorithm are interchangeable on every handle
`KeyHandle::new` builds, on their own and under the wire format; over a correct crate each opens the
frames of the other. -/
theorem providers_interchangeable (swCrate ringCrate : Gcm.Crate)
    (hagree : swCrate.Agrees ringCrate) (algo keyAlgo : AlgoId) (sw : AesGcmSwProvider)
    (hsw : AesGcmSwProvider.new algo = .ok sw) (ring : AesGcmRingProvider)
    (hring : AesGcmRingProvider.new algo = .ok ring) (id : UInt32) (material : Octets)
    (key : KeyHandle) (hkey : KeyHandle.new id keyAlgo material = .ok key) :
    (∀ nonce aad (plaintext : Slice UInt8) out,
      SameResult CryptoError.erase
        ((sw.seal_ swCrate key nonce aad plaintext.data).run out)
        ((ring.seal_ ringCrate key nonce aad plaintext.data).run out)) ∧
    (∀ nonce aad ciphertext out,
      SameResult CryptoError.erase
        ((sw.open_ swCrate key nonce aad ciphertext).run out)
        ((ring.open_ ringCrate key nonce aad ciphertext).run out)) ∧
    (∀ keyId nonce flags (plaintext : Slice UInt8) out,
      SameResult Wire.WireError.erase
        ((Wire.seal_ (sw.toProvider swCrate) key keyId nonce flags plaintext.data).run out)
        ((Wire.seal_ (ring.toProvider ringCrate) key keyId nonce flags plaintext.data).run out)) ∧
    (∀ frame out,
      SameResult Wire.WireError.erase
        ((Wire.open_ (sw.toProvider swCrate) key frame).run out)
        ((Wire.open_ (ring.toProvider ringCrate) key frame).run out)) ∧
    (swCrate.aead.Correct → ∀ keyId nonce flags (plaintext : Slice UInt8) out n out' buf,
      plaintext.data.length ≤ buf.length →
      ((Wire.seal_ (sw.toProvider swCrate) key keyId nonce flags plaintext.data).run out =
          .ok n out' →
        ∃ buf', (Wire.open_ (ring.toProvider ringCrate) key (out'.take n)).run buf =
            .ok plaintext.data.length buf' ∧
          buf'.take plaintext.data.length = plaintext.data) ∧
      ((Wire.seal_ (ring.toProvider ringCrate) key keyId nonce flags plaintext.data).run out =
          .ok n out' →
        ∃ buf', (Wire.open_ (sw.toProvider swCrate) key (out'.take n)).run buf =
            .ok plaintext.data.length buf' ∧
          buf'.take plaintext.data.length = plaintext.data)) := by
  obtain ⟨supported, rfl, rfl⟩ := exists_new_eq_ok hsw hring
  have hsame := AesGcmSwProvider.sameOn_ring hagree supported (KeyHandle.wellFormed_of_new hkey)
  refine ⟨hsame.seal_same, hsame.open_same, ?_, Wire.open_same hsame, ?_⟩
  · exact Wire.seal_same hsame (AesGcmRingProvider.writesSealed ringCrate _)
  · intro hcorrect keyId nonce flags plaintext out n out' buf hbuf
    have hcorrect' : ringCrate.aead.Correct := hagree.aead_eq ▸ hcorrect
    exact ⟨fun hseal => Wire.open_of_seal_same hsame
        (AesGcmRingProvider.conforms ringCrate hcorrect' _) hseal hbuf,
      fun hseal => Wire.open_of_seal_same hsame.symm
        (AesGcmSwProvider.conforms swCrate hcorrect _) hseal hbuf⟩

/-- A frame of the software provider opens under `ring`. -/
theorem providers_interchangeable_kat :
    ∃ buf', (Wire.open_ (AesGcmRingProvider.toProvider Gcm.kat ⟨.aes256Gcm, AlgoId.aes256Gcm_ne⟩)
        Gcm.Kat.handle256 Gcm.Kat.frame256).run [0, 0] = .ok 2 buf' ∧
      buf'.take 2 = Gcm.Kat.text := by
  obtain ⟨-, -, -, -, hframes⟩ := providers_interchangeable Gcm.kat Gcm.kat ⟨rfl, rfl⟩ .aes256Gcm
    .aes256Gcm _ rfl _ rfl 7 Gcm.Kat.material256 Gcm.Kat.handle256 rfl
  exact (hframes Gcm.kat_correct 7 Gcm.Kat.nonce 0 ⟨Gcm.Kat.text, by decide⟩
    (List.replicate 42 0) 42 Gcm.Kat.frame256 [0, 0] (by decide)).1 rfl

end SmartSfp
