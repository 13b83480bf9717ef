import SmartSfp.Wire.Header

/-!
# Frame — sealing a plaintext into a frame and opening a frame

`[ HEADER (12B) | NONCE | CIPHERTEXT | TAG ]`, the header being the associated data.  Both
functions are generic in the provider.  `seal_run` and `open_run` reduce them to one call of the
provider on the right pieces; `parse` is the grammar of the frames `open_` hands to its provider.
-/

namespace SmartSfp

namespace Wire

open Lib Exec

variable {σ ε : Type}

/-- Total wire size of a frame. -/
def frameLen (plaintextLen nonceLen tagLen : Nat) : Exec σ ε Nat := do
  let a ← addUsize headerLen nonceLen
  let b ← addUsize a plaintextLen
  addUsize b tagLen

def seal_ (provider : CryptoProvider) (key : KeyHandle) (keyId : UInt32) (nonce : Octets)
    (flags : UInt8) (plaintext : Octets) : Exec Octets WireError Nat := do
  let algo := provider.algorithm
  failIf (nonce.length ≠ algo.nonceLen)
    (.nonceLenMismatch (UInt8.ofNat nonce.length) algo.nonceLen)
  let need ← frameLen plaintext.length nonce.length algo.tagLen
  let room ← len
  failIf (room < need) .outputTooSmall
  let header : FrameHeader := {
    version := version
    flags := flags
    keyId := keyId
    algo := algo
    nonceLen := UInt8.ofNat nonce.length }
  window 0 headerLen header.encode
  let bodyOff ← addUsize headerLen nonce.length
  copyFromSlice headerLen bodyOff nonce
  -- the associated data is read back from what `encode` wrote
  let hdrBuf ← readRange 0 headerLen
  let bodyEnd ← addUsize (← addUsize bodyOff plaintext.length) algo.tagLen
  let written ← mapErr .crypto
    (window bodyOff bodyEnd (provider.seal_ key nonce hdrBuf plaintext))
  addUsize bodyOff written

def open_ (provider : CryptoProvider) (key : KeyHandle) (frame : Octets) :
    Exec Octets WireError Nat := do
  let header ← FrameHeader.decode frame
  let algo := header.algo
  failIf (header.algo ≠ provider.algorithm)
    (.crypto (.algorithmMismatch provider.algorithm header.algo))
  failIf (header.nonceLen.toNat ≠ algo.nonceLen)
    (.nonceLenMismatch header.nonceLen algo.nonceLen)
  let bodyOff ← addUsize headerLen header.nonceLen.toNat
  let least ← addUsize bodyOff algo.tagLen
  failIf (frame.length < least) .bodyTooShort
  let nonce ← slice frame headerLen bodyOff
  let body ← slice frame bodyOff frame.length
  let ptLen ← subUsize body.length algo.tagLen
  let room ← len
  failIf (room < ptLen) .outputTooSmall
  let hdrBuf ← slice frame 0 headerLen
  mapErr .crypto (provider.open_ key nonce hdrBuf body)

/-! ## Sealing -/

theorem run_frameLen {p n t : Nat} (h : 12 + n + p + t < usizeSize) (s : σ) :
    (frameLen p n t : Exec σ ε Nat).run s = .ok (12 + n + p + t) s := by
  simp only [frameLen, headerLen_eq, run_bind]
  rw [run_addUsize (by omega), Outcome.bind_ok, run_addUsize (by omega), Outcome.bind_ok,
    run_addUsize h]

/-- The header of a frame sealed by a provider of `algo`. -/
def sealHeader (algo : AlgoId) (keyId : UInt32) (flags : UInt8) : FrameHeader :=
  ⟨version, flags, keyId, algo, 12⟩

theorem seal_run_nonce {provider : CryptoProvider} {key : KeyHandle} {keyId : UInt32}
    {nonce : Octets} {flags : UInt8} {plaintext out : Octets} (h : nonce.length ≠ 12) :
    (seal_ provider key keyId nonce flags plaintext).run out =
      .err (.nonceLenMismatch (UInt8.ofNat nonce.length) 12) out := by
  simp [seal_, h]

theorem add_lt_usizeSize {n : Nat} (h : n ≤ isizeMax) : 12 + 12 + n + 16 < usizeSize := by
  simp only [isizeMax, usizeSize] at *
  omega

theorem seal_run_small {provider : CryptoProvider} {key : KeyHandle} {keyId : UInt32}
    {nonce : Octets} {flags : UInt8} {plaintext out : Octets} (hn : nonce.length = 12)
    (hfit : plaintext.length ≤ isizeMax) (h : out.length < plaintext.length + 40) :
    (seal_ provider key keyId nonce flags plaintext).run out = .err .outputTooSmall out := by
  have hneed := add_lt_usizeSize hfit
  simp only [seal_, AlgoId.nonceLen_eq, AlgoId.tagLen_eq, hn, ne_eq, not_true_eq_false, run_bind,
    run_failIf, if_false, Outcome.bind_ok, run_frameLen hneed, run_len]
  rw [if_pos (by omega), Outcome.bind_err]

/-- Sealing into a large enough buffer is one call of the provider: the associated data is the
header, and the provider sees exactly the bytes between nonce and slack. -/
theorem seal_run (provider : CryptoProvider) (key : KeyHandle) (keyId : UInt32) (flags : UInt8)
    (slack : Octets) {nonce plaintext front body : Octets}
    (hn : nonce.length = 12) (hfit : plaintext.length ≤ isizeMax) (hfront : front.length = 24)
    (hbody : body.length = plaintext.length + 16) :
    (seal_ provider key keyId nonce flags plaintext).run (front ++ body ++ slack) =
      ((((provider.seal_ key nonce (sealHeader provider.algorithm keyId flags).bytes plaintext).run
        body).mapState fun w =>
          (sealHeader provider.algorithm keyId flags).bytes ++ nonce ++ w ++ slack).mapErr
            WireError.crypto).bind fun written t => (addUsize 24 written).run t := by
  have hneed := add_lt_usizeSize hfit
  obtain ⟨h12, n12, rfl, hh12, -⟩ := exists_split (n := 12) (s := front) (by omega)
  have hn12 : n12.length = 12 := by
    rw [List.length_append] at hfront
    omega
  have hroom : ¬ (h12 ++ n12 ++ body ++ slack).length < 12 + 12 + plaintext.length + 16 := by
    simp only [List.length_append]
    omega
  let header := sealHeader provider.algorithm keyId flags
  -- header, nonce and sealed body are written into parts that do not overlap
  have hencode : (window 0 12 header.encode).run (h12 ++ n12 ++ body ++ slack) =
      .ok () (header.bytes ++ n12 ++ body ++ slack) := by
    rw [List.append_assoc, List.append_assoc, run_window_front _ hh12.symm,
      header.encode_run (by omega), Outcome.mapState_ok, List.drop_of_length_le (by omega)]
    simp only [List.append_nil, List.append_assoc]
  have hnonce : (copyFromSlice 12 (12 + 12) nonce : Exec Octets WireError Unit).run
      (header.bytes ++ n12 ++ body ++ slack) =
      .ok () (header.bytes ++ nonce ++ body ++ slack) := by
    rw [List.append_assoc _ body, run_copyFromSlice header.length_bytes.symm
      (by rw [header.length_bytes, hn12]) (by rw [hn, hn12]), List.append_assoc _ body]
  have hread : (readRange 0 12 : Exec Octets WireError Octets).run
      (header.bytes ++ nonce ++ body ++ slack) =
      .ok header.bytes (header.bytes ++ nonce ++ body ++ slack) := by
    rw [List.append_assoc, List.append_assoc, run_readRange_front header.length_bytes.symm]
  have hcall (x : Exec Octets CryptoError Nat) :
      (window (12 + 12) (12 + 12 + plaintext.length + 16) x).run
        (header.bytes ++ nonce ++ body ++ slack) =
      (x.run body).mapState fun w => header.bytes ++ nonce ++ w ++ slack := by
    apply run_window
    · rw [List.length_append, header.length_bytes, hn]
    · rw [List.length_append, header.length_bytes, hn, hbody]
      omega
  simp only [seal_, AlgoId.nonceLen_eq, AlgoId.tagLen_eq, hn, ne_eq, not_true_eq_false, run_bind,
    run_failIf, if_false, Outcome.bind_ok, run_frameLen hneed, run_len, headerLen_eq,
    run_mapErr]
  rw [if_neg hroom, Outcome.bind_ok]
  change ((window 0 12 header.encode).run _).bind _ = _
  rw [hencode, Outcome.bind_ok, run_addUsize (by omega), Outcome.bind_ok, hnonce, Outcome.bind_ok,
    hread, Outcome.bind_ok, run_addUsize (by omega), Outcome.bind_ok, run_addUsize (by omega),
    Outcome.bind_ok, hcall]

/-! ## Opening -/

/-- A frame taken apart: associated data, nonce, ciphertext with tag. -/
structure Parts where
  aad : Octets
  nonce : Octets
  body : Octets
  deriving DecidableEq

/-- The frames of an algorithm, with what `open_` answers to any other byte string. -/
def parse (algo : AlgoId) (frame : Octets) : Except WireError Parts :=
  match FrameHeader.parse frame with
  | .error e => .error e
  | .ok header =>
    if header.algo ≠ algo then .error (.crypto (.algorithmMismatch algo header.algo))
    else if header.nonceLen ≠ 12 then .error (.nonceLenMismatch header.nonceLen 12)
    else if frame.length < 40 then .error .bodyTooShort
    else .ok ⟨frame.take 12, (frame.take 24).drop 12, frame.drop 24⟩

theorem open_run (provider : CryptoProvider) (key : KeyHandle) (frame out : Octets) :
    (open_ provider key frame).run out =
      match parse provider.algorithm frame with
      | .error e => .err e out
      | .ok parts =>
        if out.length < parts.body.length - 16 then .err .outputTooSmall out
        else ((provider.open_ key parts.nonce parts.aad parts.body).run out).mapErr .crypto := by
  unfold open_ parse
  rw [run_bind, FrameHeader.decode_run]
  cases hparse : FrameHeader.parse frame with
  | error e => rfl
  | ok header =>
    have h12 := FrameHeader.length_of_parse hparse
    simp only [Outcome.bind_ok, AlgoId.nonceLen_eq, AlgoId.tagLen_eq, headerLen_eq, run_bind,
      run_failIf]
    by_cases halgo : header.algo = provider.algorithm
    · by_cases hn : header.nonceLen = 12
      · simp only [halgo, hn, ne_eq, not_true_eq_false, if_false, Outcome.bind_ok]
        rw [if_neg (by decide), Outcome.bind_ok, show UInt8.toNat 12 = 12 from rfl,
          run_addUsize (by decide), Outcome.bind_ok, show 12 + 12 = 24 from rfl,
          run_addUsize (by decide), Outcome.bind_ok, show 24 + 16 = 40 from rfl]
        -- a header, a nonce and a tag are 40 bytes
        by_cases hlen : frame.length < 40
        · rw [if_pos hlen, Outcome.bind_err, if_pos hlen]
        · have hbody : (frame.drop 24).length = frame.length - 24 := List.length_drop
          rw [if_neg hlen, Outcome.bind_ok, if_neg hlen, run_slice (by omega) (by omega),
            Outcome.bind_ok, run_slice (by omega) (Nat.le_refl _), Outcome.bind_ok,
            List.take_length, run_subUsize (by omega), Outcome.bind_ok, run_len, Outcome.bind_ok]
          by_cases hroom : out.length < (frame.drop 24).length - 16
          · simp only [if_pos hroom, Outcome.bind_err]
          · rw [if_neg hroom, Outcome.bind_ok, run_slice (by omega) (by omega), Outcome.bind_ok]
            simp only [if_neg hroom, List.drop_zero, run_mapErr]
      · have hne : header.nonceLen.toNat ≠ 12 := fun h => hn (UInt8.toNat_inj.mp h)
        simp [halgo, hn, hne]
    · simp [halgo]

/-- The pieces of a parsed frame are the whole frame, so the split loses nothing. -/
theorem parse_eq_ok {algo : AlgoId} {frame : Octets} {parts : Parts}
    (h : parse algo frame = .ok parts) :
    frame = parts.aad ++ parts.nonce ++ parts.body ∧ parts.aad.length = 12 ∧
      parts.nonce.length = 12 ∧ 16 ≤ parts.body.length := by
  unfold parse at h
  split at h
  · cases h
  · split at h
    · cases h
    · split at h
      · cases h
      · split at h
        · cases h
        · rename_i hlen
          cases h
          refine ⟨?_, ?_, ?_, ?_⟩
          · conv_lhs => rw [← List.take_append_drop 24 frame, ← List.take_append_drop 12
              (frame.take 24), List.take_take]
            rfl
          · rw [List.length_take]
            omega
          · rw [List.length_drop, List.length_take]
            omega
          · rw [List.length_drop]
            omega

/-- The errors for a byte string that is no frame of the provider's algorithm. -/
def WireError.OfLayout : WireError → Prop
  | .truncated _ | .badMagic | .badVersion _ | .unknownAlgo _ | .nonceLenMismatch _ _
  | .bodyTooShort | .crypto (.algorithmMismatch _ _) => True
  | _ => False

theorem ofLayout_of_parse {algo : AlgoId} {frame : Octets} {e : WireError}
    (h : parse algo frame = .error e) : e.OfLayout := by
  have hheader {e : WireError} (h : FrameHeader.parse frame = .error e) : e.OfLayout := by
    unfold FrameHeader.parse at h
    repeat' split at h
    all_goals cases h
    all_goals trivial
  unfold parse at h
  split at h
  · rename_i hparse
    cases h
    exact hheader hparse
  · repeat' split at h
    all_goals cases h
    all_goals trivial

theorem parse_sealed (algo : AlgoId) (keyId : UInt32) (flags : UInt8) {nonce body : Octets}
    (hn : nonce.length = 12) (hbody : 16 ≤ body.length) :
    parse algo ((sealHeader algo keyId flags).bytes ++ nonce ++ body) =
      .ok ⟨(sealHeader algo keyId flags).bytes, nonce, body⟩ := by
  have hheader := (sealHeader algo keyId flags).length_bytes
  have hfront : ((sealHeader algo keyId flags).bytes ++ nonce).length = 24 := by
    rw [List.length_append, hheader, hn]
  have hlen : ¬ ((sealHeader algo keyId flags).bytes ++ nonce ++ body).length < 40 := by
    simp only [List.length_append, hheader, hn]
    omega
  have hparse : FrameHeader.parse ((sealHeader algo keyId flags).bytes ++ nonce ++ body) =
      .ok (sealHeader algo keyId flags) := by
    rw [List.append_assoc]
    exact FrameHeader.parse_bytes _ rfl _
  simp only [parse, hparse, if_neg hlen]
  rw [if_neg (by simp [sealHeader]), if_neg (by simp [sealHeader])]
  conv_lhs => rw [← hfront, List.take_left, List.drop_left]
  rw [List.append_assoc, ← hheader, List.take_left, List.drop_left]

end Wire

end SmartSfp
