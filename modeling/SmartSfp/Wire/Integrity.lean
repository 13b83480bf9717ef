import SmartSfp.Crypto.Kat
import SmartSfp.Wire.RoundTrip

/-!
# Integrity — over an ideal AEAD, only sealed frames open

A run is a list of calls of `seal_`.  The log of the run holds the successful calls of the provider
it led to; if nothing else opens under the provider, then no byte string opens as a frame except the
frames of the run.
-/

namespace SmartSfp

open Lib Exec

variable {κ : Type}

/-- A provider as an AEAD.  `keyOf` is what counts as the key of a handle: all of it, or only the
material. -/
def CryptoProvider.aead (provider : CryptoProvider) (keyOf : KeyHandle → κ) :
    Aead κ Octets Octets Octets Octets where
  Seals k n a p c := ∃ key out count out', keyOf key = k ∧
    (provider.seal_ key n a p).run out = .ok count out' ∧ c = out'.take count
  Opens k n a c p := ∃ key out count out', keyOf key = k ∧
    (provider.open_ key n a c).run out = .ok count out' ∧ p = out'.take count

/-- `seal_` never reports more bytes than its buffer holds. -/
def CryptoProvider.CountsWithin (provider : CryptoProvider) : Prop :=
  ∀ {key nonce aad} {plaintext : Slice UInt8} {out n out'},
    (provider.seal_ key nonce aad plaintext.data).run out = .ok n out' → n ≤ out.length

theorem AesGcmRingProvider.countsWithin (crate : Gcm.Crate) (self : AesGcmRingProvider) :
    (self.toProvider crate).CountsWithin := by
  intro key nonce aad plaintext out n out' h
  change (self.seal_ crate key nonce aad plaintext.data).run out = .ok n out' at h
  rw [self.seal_run crate _ _ _ _ _ plaintext.length_le] at h
  obtain ⟨-, hroom, -, -, -, -, -, -, -, rfl, -⟩ := AesGcm.sealSpec_eq_ok_iff.mp h
  exact hroom

namespace Wire

/-- The arguments of one call of `seal_`. -/
structure SealCall where
  key : KeyHandle
  keyId : UInt32
  nonce : Octets
  flags : UInt8
  plaintext : Slice UInt8
  out : Octets

namespace SealCall

variable (provider : CryptoProvider) (call : SealCall)

def run : Outcome Octets WireError Nat :=
  (seal_ provider call.key call.keyId call.nonce call.flags call.plaintext.data).run call.out

/-- The call succeeded and `frame` is what it wrote. -/
def Produces (frame : Octets) : Prop :=
  ∃ n out', call.run provider = .ok n out' ∧ frame = out'.take n

/-- The bytes the call feeds to the provider as associated data. -/
def aad : Octets := (sealHeader provider.algorithm call.keyId call.flags).bytes

/-- The part of the buffer the call hands to the provider. -/
def window : Octets := (call.out.drop 24).take (call.plaintext.data.length + 16)

/-- The call gets as far as the provider. -/
def Reaches : Prop :=
  call.nonce.length = 12 ∧ call.plaintext.data.length + 40 ≤ call.out.length

end SealCall

/-- The successful calls of `provider.seal_` a run of `seal_` leads to. -/
def sealLog (provider : CryptoProvider) (keyOf : KeyHandle → κ) (calls : List SealCall) :
    Set (SealRecord κ Octets Octets Octets Octets) :=
  {r | ∃ call ∈ calls, call.Reaches ∧ ∃ count body,
    (provider.seal_ call.key call.nonce (call.aad provider) call.plaintext.data).run call.window =
      .ok count body ∧
    r = ⟨keyOf call.key, call.nonce, call.aad provider, call.plaintext.data, body.take count⟩}

/-- How header, nonce and sealed text make up a frame. -/
def layout (aad nonce body : Octets) : Octets := aad ++ nonce ++ body

/-- Every entry of the log is the inside of a frame of the run. -/
theorem produces_of_mem_sealLog {provider : CryptoProvider} {keyOf : KeyHandle → κ}
    {calls : List SealCall} (hcounts : provider.CountsWithin)
    {r : SealRecord κ Octets Octets Octets Octets} (hr : r ∈ sealLog provider keyOf calls) :
    ∃ call ∈ calls, keyOf call.key = r.key ∧ call.plaintext.data = r.plaintext ∧
      call.Produces provider (layout r.aad r.nonce r.sealed) := by
  obtain ⟨call, hmem, ⟨hn, hroom⟩, count, body, hcall, rfl⟩ := hr
  refine ⟨call, hmem, rfl, rfl, ?_⟩
  have hwindow : call.window.length = call.plaintext.data.length + 16 := by
    rw [SealCall.window, List.length_take, List.length_drop]
    omega
  have hkeeps := provider.seal_keeps call.key call.nonce (call.aad provider) call.plaintext.data
    call.window
  rw [hcall] at hkeeps
  have hbody : body.length = call.plaintext.data.length + 16 := Eq.trans hkeeps hwindow
  have hcount : count ≤ body.length := by
    have hwithin := hcounts hcall
    omega
  -- the provider works on the window behind header and nonce
  have hsplit : call.out = call.out.take 24 ++ call.window ++
      call.out.drop (call.plaintext.data.length + 40) := by
    have hrest : call.out.drop (call.plaintext.data.length + 40) =
        (call.out.drop 24).drop (call.plaintext.data.length + 16) := by
      rw [List.drop_drop]
      congr 1
      omega
    rw [hrest, SealCall.window, List.append_assoc, List.take_append_drop,
      List.take_append_drop]
  have hrun : call.run provider = .ok (24 + count) (call.aad provider ++ call.nonce ++ body ++
      call.out.drop (call.plaintext.data.length + 40)) := by
    have hfits := add_lt_usizeSize call.plaintext.length_le
    rw [SealCall.run, hsplit, seal_run _ _ _ _ _ hn call.plaintext.length_le
      (by rw [List.length_take]; omega) hwindow]
    change (((Outcome.mapState _ ((provider.seal_ call.key call.nonce (call.aad provider)
      call.plaintext.data).run call.window)).mapErr WireError.crypto).bind _) = _
    rw [hcall, Outcome.mapState_ok, Outcome.mapErr_ok, Outcome.bind_ok, run_addUsize (by omega),
      ← hsplit]
    rfl
  refine ⟨_, _, hrun, ?_⟩
  have hlen : (call.aad provider ++ call.nonce).length = 24 := by
    rw [List.length_append, hn]
    exact congrArg (· + 12) (FrameHeader.length_bytes _)
  rw [layout, List.append_assoc (call.aad provider ++ call.nonce), ← hlen,
    List.take_length_add_append, List.take_append_of_le_length hcount]

/-- `open_` only opens what its provider opens, cut out of the frame along its layout. -/
theorem framed_opens {provider : CryptoProvider} (keyOf : KeyHandle → κ) {key : KeyHandle}
    {frame out out' : Octets} {n : Nat}
    (h : (open_ provider key frame).run out = .ok n out') :
    ((provider.aead keyOf).framed layout).Opens (keyOf key) () () frame (out'.take n) := by
  rw [open_run] at h
  cases hparse : parse provider.algorithm frame with
  | error e =>
    rw [hparse] at h
    cases h
  | ok parts =>
    rw [hparse] at h
    obtain ⟨hframe, -⟩ := parse_eq_ok hparse
    simp only at h
    split at h
    · cases h
    · cases hcall : (provider.open_ key parts.nonce parts.aad parts.body).run out with
      | ok m s =>
        rw [hcall] at h
        cases h
        exact ⟨parts.aad, parts.nonce, parts.body, ⟨key, out, _, _, rfl, hcall, rfl⟩, hframe⟩
      | err e s =>
        rw [hcall] at h
        cases h
      | panic p =>
        rw [hcall] at h
        cases h

/-! ## An ideal provider for any run -/

variable (provider : CryptoProvider)

/-- What a call adds to the log. -/
def SealCall.record (call : SealCall) : Option (SealRecord KeyHandle Octets Octets Octets Octets) :=
  if call.nonce.length = 12 ∧ call.plaintext.data.length + 40 ≤ call.out.length then
    match (provider.seal_ call.key call.nonce (call.aad provider) call.plaintext.data).run
      call.window with
    | .ok count body =>
      some ⟨call.key, call.nonce, call.aad provider, call.plaintext.data, body.take count⟩
    | _ => none
  else none

/-- The provider that seals as `provider` does and opens what the calls recorded. -/
def ideal (calls : List SealCall) : CryptoProvider where
  algorithm := provider.algorithm
  seal_ := provider.seal_
  open_ key nonce aad body := do
    let r ← okOr ((calls.filterMap (SealCall.record provider)).find? fun r =>
      decide (r.key = key ∧ r.nonce = nonce ∧ r.aad = aad ∧ r.sealed = body)) .authFailed
    copyFromSlice 0 r.plaintext.length r.plaintext
    return r.plaintext.length
  seal_keeps := provider.seal_keeps
  open_keeps _ _ _ _ := keeps_bind (keeps_okOr _ _) fun _ =>
    keeps_bind (keeps_copyFromSlice _ _ _) fun _ => keeps_pure _

theorem mem_sealLog_of_record {calls : List SealCall} {call : SealCall} (hmem : call ∈ calls)
    {r : SealRecord KeyHandle Octets Octets Octets Octets}
    (h : call.record provider = some r) : r ∈ sealLog provider id calls := by
  unfold SealCall.record at h
  split at h
  · rename_i hreach
    split at h
    · rename_i count body hcall
      cases h
      exact ⟨call, hmem, hreach, count, body, hcall, rfl⟩
    · cases h
  · cases h

theorem ideal_authentic (calls : List SealCall) :
    ((ideal provider calls).aead id).Authentic (sealLog (ideal provider calls) id calls) := by
  rintro k n a c p ⟨key, out, count, out', rfl, hrun, rfl⟩
  change ((ideal provider calls).open_ key n a c).run out = _ at hrun
  simp only [ideal] at hrun
  cases hfind : (calls.filterMap (SealCall.record provider)).find? fun r =>
      decide (r.key = key ∧ r.nonce = n ∧ r.aad = a ∧ r.sealed = c) with
  | none =>
    rw [hfind, run_bind, run_okOr_none] at hrun
    cases hrun
  | some r =>
    have hr : r.key = key ∧ r.nonce = n ∧ r.aad = a ∧ r.sealed = c := by
      simpa using List.find?_some hfind
    obtain ⟨call, hmem, hrecord⟩ := List.mem_filterMap.mp (List.mem_of_find?_eq_some hfind)
    rw [hfind, run_bind, run_okOr_some, Outcome.bind_ok, run_bind] at hrun
    obtain ⟨_, s, hcopy, hret⟩ := Outcome.bind_eq_ok_iff.mp hrun
    cases hret
    have hplain : out'.take r.plaintext.length = r.plaintext := by
      simp only [copyFromSlice] at hcopy
      split at hcopy
      · split at hcopy
        · cases hcopy
          rw [List.take_zero, List.nil_append, List.take_left]
        · cases hcopy
      · cases hcopy
    have hlog := mem_sealLog_of_record provider hmem hrecord
    obtain ⟨rfl, rfl, rfl, rfl⟩ := hr
    rw [hplain]
    exact hlog

/-- Whole-frame integrity: under an ideal AEAD, whatever opens is byte for byte a frame that a call
of the run produced for that plaintext under that key. -/
theorem opens_only_sealed (keyOf : KeyHandle → κ)
    (calls : List SealCall) (hcounts : provider.CountsWithin)
    (hideal : (provider.aead keyOf).Authentic (sealLog provider keyOf calls))
    (key : KeyHandle) (frame out : Octets) (n : Nat) (out' : Octets)
    (hopen : (open_ provider key frame).run out = .ok n out') :
    ∃ call ∈ calls, keyOf call.key = keyOf key ∧ call.plaintext.data = out'.take n ∧
      call.Produces provider frame := by
  obtain ⟨r, hr, hkey, hplain, hframe⟩ :=
    Aead.framed_authentic hideal layout (framed_opens keyOf hopen)
  obtain ⟨call, hmem, hk, hp, hproduces⟩ := produces_of_mem_sealLog hcounts hr
  exact ⟨call, hmem, hk.trans hkey, hp.trans hplain, hframe ▸ hproduces⟩

namespace Kat

/-- `text` sealed under key 7. -/
def call : SealCall where
  key := Gcm.Kat.handle256
  keyId := 7
  nonce := Gcm.Kat.nonce
  flags := 0
  plaintext := ⟨Gcm.Kat.text, by decide⟩
  out := List.replicate 42 0

def ring : CryptoProvider :=
  AesGcmRingProvider.toProvider Gcm.kat ⟨.aes256Gcm, AlgoId.aes256Gcm_ne⟩

end Kat

theorem opens_only_sealed_kat :
    ∃ call ∈ [Kat.call], call.key = Gcm.Kat.handle256 ∧ call.plaintext.data = Gcm.Kat.text ∧
      call.Produces (ideal Kat.ring [Kat.call]) Gcm.Kat.frame256 :=
  opens_only_sealed (ideal Kat.ring [Kat.call]) id [Kat.call]
    (AesGcmRingProvider.countsWithin Gcm.kat _)
    (ideal_authentic Kat.ring [Kat.call]) Gcm.Kat.handle256 Gcm.Kat.frame256
    (List.replicate 2 0) 2 Gcm.Kat.text rfl

end Wire

end SmartSfp
