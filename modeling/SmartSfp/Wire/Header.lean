import SmartSfp.Crypto.Provider

/-!
# Header — the fixed 12-byte header of a frame
-/

namespace SmartSfp

namespace Wire

open Lib Exec

/-- `b"AC"`. -/
def magic : Octets := [0x41, 0x43]

def version : UInt8 := 1

def headerLen : Nat := 12

@[simp] theorem headerLen_eq : headerLen = 12 := rfl

inductive WireError where
  | truncated (got : Nat)
  | badMagic
  | badVersion (got : UInt8)
  | unknownAlgo (got : UInt8)
  | nonceLenMismatch (header : UInt8) (algo : Nat)
  | bodyTooShort
  | outputTooSmall
  | crypto (error : CryptoError)
  deriving DecidableEq, Repr

/-- One byte as `{:02x}`. -/
def hexByte (b : UInt8) : String :=
  String.ofList [Nat.digitChar (b.toNat / 16), Nat.digitChar (b.toNat % 16)]

/-- The `Display` text. -/
def WireError.display : WireError → String
  | truncated got => s!"frame too short ({got} bytes, need at least {headerLen} for header)"
  | badMagic => "bad magic bytes"
  | badVersion got => s!"unsupported version: {got}"
  | unknownAlgo got => s!"unknown algorithm id: 0x{hexByte got}"
  | nonceLenMismatch header algo =>
      s!"nonce length in header ({header}) does not match algo expected ({algo})"
  | bodyTooShort => "frame is missing nonce or ciphertext bytes"
  | outputTooSmall => "output buffer too small"
  | crypto error => s!"crypto: {error.display}"

/-- `u32::to_be_bytes`. -/
def toBeBytes (v : UInt32) : Octets :=
  [UInt8.ofNat (v.toNat / 2 ^ 24), UInt8.ofNat (v.toNat / 2 ^ 16), UInt8.ofNat (v.toNat / 2 ^ 8),
    UInt8.ofNat v.toNat]

/-- `u32::from_be_bytes`. -/
def fromBeBytes (b0 b1 b2 b3 : UInt8) : UInt32 :=
  UInt32.ofNat (b0.toNat * 2 ^ 24 + b1.toNat * 2 ^ 16 + b2.toNat * 2 ^ 8 + b3.toNat)

structure FrameHeader where
  version : UInt8
  flags : UInt8
  keyId : UInt32
  algo : AlgoId
  nonceLen : UInt8
  deriving DecidableEq, Repr

namespace FrameHeader

def encode (self : FrameHeader) : Exec Octets WireError Unit := do
  let room ← len
  failIf (room < headerLen) (.truncated room)
  copyFromSlice 0 2 magic
  store 2 self.version
  store 3 self.flags
  copyFromSlice 4 8 (toBeBytes self.keyId)
  store 8 self.algo.toU8
  store 9 self.nonceLen
  store 10 0
  store 11 0

def decode {σ : Type} (src : Octets) : Exec σ WireError FrameHeader := do
  failIf (src.length < headerLen) (.truncated src.length)
  let magicBytes ← slice src 0 2
  failIf (magicBytes ≠ magic) .badMagic
  let v ← index src 2
  failIf (v ≠ Wire.version) (.badVersion v)
  let a ← index src 8
  let algo ← okOr (AlgoId.fromU8 a) (.unknownAlgo a)
  return {
    version := ← index src 2
    flags := ← index src 3
    keyId := fromBeBytes (← index src 4) (← index src 5) (← index src 6) (← index src 7)
    algo := algo
    nonceLen := ← index src 9 }

/-- The 12 bytes `encode` writes. -/
def bytes (self : FrameHeader) : Octets :=
  magic ++ [self.version, self.flags] ++ toBeBytes self.keyId ++
    [self.algo.toU8, self.nonceLen, 0, 0]

@[simp] theorem length_bytes (self : FrameHeader) : self.bytes.length = 12 := rfl

end FrameHeader

theorem fromBeBytes_toBeBytes (v : UInt32) :
    fromBeBytes (UInt8.ofNat (v.toNat / 2 ^ 24)) (UInt8.ofNat (v.toNat / 2 ^ 16))
      (UInt8.ofNat (v.toNat / 2 ^ 8)) (UInt8.ofNat v.toNat) = v := by
  have hv := v.toNat_lt
  apply UInt32.toNat_inj.mp
  simp only [fromBeBytes, UInt8.toNat_ofNat', UInt32.toNat_ofNat']
  omega

theorem toBeBytes_fromBeBytes (b0 b1 b2 b3 : UInt8) :
    toBeBytes (fromBeBytes b0 b1 b2 b3) = [b0, b1, b2, b3] := by
  have h0 := b0.toNat_lt
  have h1 := b1.toNat_lt
  have h2 := b2.toNat_lt
  have h3 := b3.toNat_lt
  simp only [toBeBytes, fromBeBytes, UInt32.toNat_ofNat', List.cons.injEq, and_true,
    ← UInt8.toNat_inj, UInt8.toNat_ofNat']
  omega

theorem exists_twelve {l : Octets} (h : 12 ≤ l.length) :
    ∃ b0 b1 b2 b3 b4 b5 b6 b7 b8 b9 b10 b11 rest,
      l = b0 :: b1 :: b2 :: b3 :: b4 :: b5 :: b6 :: b7 :: b8 :: b9 :: b10 :: b11 :: rest := by
  match l, h with
  | b0 :: b1 :: b2 :: b3 :: b4 :: b5 :: b6 :: b7 :: b8 :: b9 :: b10 :: b11 :: rest, _ =>
    exact ⟨b0, b1, b2, b3, b4, b5, b6, b7, b8, b9, b10, b11, rest, rfl⟩

namespace FrameHeader

theorem encode_run (self : FrameHeader) {out : Octets} (h : 12 ≤ out.length) :
    self.encode.run out = .ok () (self.bytes ++ out.drop 12) := by
  obtain ⟨b0, b1, b2, b3, b4, b5, b6, b7, b8, b9, b10, b11, rest, rfl⟩ := exists_twelve h
  rw [encode, run_bind, run_len, Outcome.bind_ok, run_bind, run_failIf, headerLen_eq,
    if_neg (Nat.not_lt.mpr h), Outcome.bind_ok]
  simp [copyFromSlice, store, magic, toBeBytes, bytes]

/-- The headers `decode` accepts: the two reserved bytes are not looked at. -/
def parse : Octets → Except WireError FrameHeader
  | m0 :: m1 :: v :: f :: k0 :: k1 :: k2 :: k3 :: a :: n :: _ :: _ :: _ =>
    if [m0, m1] ≠ magic then .error .badMagic
    else if v ≠ Wire.version then .error (.badVersion v)
    else match AlgoId.fromU8 a with
      | none => .error (.unknownAlgo a)
      | some algo => .ok ⟨v, f, fromBeBytes k0 k1 k2 k3, algo, n⟩
  | src => .error (.truncated src.length)

theorem decode_run {σ : Type} (src : Octets) (s : σ) :
    (decode src : Exec σ WireError FrameHeader).run s =
      match parse src with
      | .ok header => .ok header s
      | .error e => .err e s := by
  by_cases hlen : 12 ≤ src.length
  · obtain ⟨m0, m1, v, f, k0, k1, k2, k3, a, n, r0, r1, rest, rfl⟩ := exists_twelve hlen
    rw [decode, run_bind, run_failIf, headerLen_eq, if_neg (Nat.not_lt.mpr hlen),
      Outcome.bind_ok]
    simp only [parse, slice, index]
    by_cases hmagic : [m0, m1] = magic
    · by_cases hv : v = Wire.version
      · cases ha : AlgoId.fromU8 a <;> simp [hmagic, hv, ha]
      · simp [hmagic, hv]
    · simp [hmagic]
  · have hparse : parse src = .error (.truncated src.length) := by
      unfold parse
      split
      · simp at hlen
      · rfl
    simp [decode, hparse, Nat.lt_of_not_le hlen]

theorem parse_bytes (self : FrameHeader) (hv : self.version = Wire.version) (rest : Octets) :
    parse (self.bytes ++ rest) = .ok self := by
  obtain ⟨v, f, keyId, algo, n⟩ := self
  subst hv
  simp only [bytes, toBeBytes, magic, List.cons_append, List.nil_append, parse, ne_eq,
    not_true_eq_false, if_false, AlgoId.fromU8_toU8, fromBeBytes_toBeBytes]

theorem length_of_parse {src : Octets} {header : FrameHeader} (h : parse src = .ok header) :
    12 ≤ src.length := by
  unfold parse at h
  split at h
  · simp
  · cases h

end FrameHeader

end Wire

end SmartSfp
