import SmartSfp.Wire.Header

/-!
# Grammar — the byte strings that decode to a header

`encode` writes whatever version a header has and zeroes in the two reserved bytes; `decode` takes
version 1 only and does not look at the reserved bytes.
-/

namespace SmartSfp

namespace Wire

namespace FrameHeader

open Lib Exec

theorem encode_run_short (self : FrameHeader) {out : Octets} (h : out.length < 12) :
    self.encode.run out = .err (.truncated out.length) out := by
  simp [encode, h]

/-- What a successful `encode` leaves in its buffer. -/
theorem encode_eq_ok {self : FrameHeader} {out out' : Octets}
    (h : self.encode.run out = .ok () out') :
    12 ≤ out.length ∧ out' = self.bytes ++ out.drop 12 := by
  by_cases hroom : 12 ≤ out.length
  · rw [encode_run self hroom] at h
    cases h
    exact ⟨hroom, rfl⟩
  · rw [encode_run_short self (Nat.lt_of_not_le hroom)] at h
    cases h

theorem take_of_encode {self : FrameHeader} {out out' : Octets}
    (h : self.encode.run out = .ok () out') : out'.take headerLen = self.bytes := by
  obtain ⟨-, rfl⟩ := encode_eq_ok h
  exact List.take_left' self.length_bytes

/-- What was encoded is refused for its version, or comes back as it was. -/
theorem parse_bytes_append (self : FrameHeader) (rest : Octets) :
    parse (self.bytes ++ rest) =
      if self.version = Wire.version then .ok self else .error (.badVersion self.version) := by
  by_cases hv : self.version = Wire.version
  · rw [if_pos hv, parse_bytes self hv]
  · rw [if_neg hv]
    simp [bytes, toBeBytes, magic, parse, hv]

/-- Ten bytes decide what a header decodes to. -/
theorem parse_eq_ok_iff {src : Octets} {self : FrameHeader} :
    parse src = .ok self ↔
      12 ≤ src.length ∧ self.version = Wire.version ∧ src.take 10 = self.bytes.take 10 := by
  constructor
  · intro h
    have hlen := length_of_parse h
    obtain ⟨m0, m1, v, f, k0, k1, k2, k3, a, n, r0, r1, rest, rfl⟩ := exists_twelve hlen
    simp only [parse] at h
    split at h
    · cases h
    · rename_i hmagic
      split at h
      · cases h
      · rename_i hv
        rw [not_not] at hmagic hv
        cases ha : AlgoId.fromU8 a with
        | none =>
          rw [ha] at h
          cases h
        | some algo =>
          rw [ha] at h
          cases h
          refine ⟨hlen, hv, ?_⟩
          simp only [bytes, toBeBytes_fromBeBytes, ← hmagic, AlgoId.fromU8_eq_some_iff.mp ha]
          rfl
  · rintro ⟨hlen, hv, htake⟩
    obtain ⟨m0, m1, v, f, k0, k1, k2, k3, a, n, r0, r1, rest, rfl⟩ := exists_twelve hlen
    have hbytes : self.bytes = self.bytes.take 10 ++ [0, 0] := rfl
    -- the first ten bytes are those of `self`, so only the reserved two can differ
    have hsrc : parse (m0 :: m1 :: v :: f :: k0 :: k1 :: k2 :: k3 :: a :: n :: r0 :: r1 :: rest) =
        parse (self.bytes ++ rest) := by
      rw [hbytes, ← htake]
      rfl
    rw [hsrc, parse_bytes self hv]

theorem decode_eq_ok_iff {σ : Type} {src : Octets} {self : FrameHeader} {s t : σ} :
    (decode src : Exec σ WireError FrameHeader).run s = .ok self t ↔
      t = s ∧ parse src = .ok self := by
  rw [decode_run]
  cases parse src with
  | error e => simp
  | ok header => simp [eq_comm, and_comm]

end FrameHeader

/-- What `encode` wrote comes back exactly when its version is the one `decode` takes, and is
refused for its version otherwise.  A byte string decodes to a header exactly when that header has
this version and the string has twelve bytes of which the first ten, all but the reserved two, are
those `encode` writes. -/
theorem header_codec_exact (header : FrameHeader) (out out' : Octets)
    (hencode : header.encode.run out = .ok () out') :
    (∀ {σ : Type} (s : σ), (FrameHeader.decode (out'.take headerLen)).run s =
      if header.version = version then .ok header s else .err (.badVersion header.version) s) ∧
    ∀ {σ : Type} (s : σ) (src : Octets), (FrameHeader.decode src).run s = .ok header s ↔
      headerLen ≤ src.length ∧ header.version = version ∧ src.take 10 = out'.take 10 := by
  have htake := FrameHeader.take_of_encode hencode
  constructor
  · intro σ s
    have hparse := header.parse_bytes_append []
    rw [List.append_nil] at hparse
    rw [htake, FrameHeader.decode_run, hparse]
    by_cases hv : header.version = version
    · rw [if_pos hv, if_pos hv]
    · rw [if_neg hv, if_neg hv]
  · intro σ s src
    have hten : out'.take 10 = header.bytes.take 10 := by
      rw [← htake, List.take_take]
      rfl
    rw [FrameHeader.decode_eq_ok_iff, FrameHeader.parse_eq_ok_iff, hten]
    exact and_iff_right rfl

namespace Kat

/-- A header of a version that does not exist yet. -/
def header2 : FrameHeader := ⟨2, 0, 7, .aes256Gcm, 12⟩

def header1 : FrameHeader := ⟨1, 0, 7, .aes256Gcm, 12⟩

/-- The encoding of `header1` with a reserved byte set. -/
def reservedSet : Octets := [0x41, 0x43, 1, 0, 0, 0, 0, 7, 2, 12, 1, 0]

end Kat

theorem header_codec_exact_kat :
    (FrameHeader.decode Kat.header1.bytes).run () = .ok Kat.header1 () ∧
    (FrameHeader.decode Kat.reservedSet).run () = .ok Kat.header1 () := by
  obtain ⟨hback, haccepts⟩ :=
    header_codec_exact Kat.header1 (List.replicate 12 0) Kat.header1.bytes (by rfl)
  exact ⟨hback (), (haccepts () Kat.reservedSet).mpr ⟨by decide, rfl, by decide⟩⟩

/-- A header that is encoded and refused by `decode`, and a byte string that decodes to a header
whose encoding it is not. -/
theorem header_codec_slack :
    (∃ written, Kat.header2.encode.run (List.replicate 12 0) = .ok () written ∧
      (FrameHeader.decode written).run () = .err (.badVersion 2) ()) ∧
    ∃ written, Kat.header1.encode.run (List.replicate 12 0) = .ok () written ∧
      (FrameHeader.decode Kat.reservedSet).run () = .ok Kat.header1 () ∧
      Kat.reservedSet.take 12 ≠ written.take 12 :=
  ⟨⟨_, rfl, rfl⟩, _, rfl, rfl, by decide⟩

end Wire

end SmartSfp
