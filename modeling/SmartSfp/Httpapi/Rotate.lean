import SmartSfp.Httpapi.System
import SmartSfp.Ipc.Client

/-!
# Rotate — the handler of `/api/v1/keys/rotate`

The handler stops in the middle, while `Client.RotateKey` runs, so it is two functions: what leads
up to the call, and what is made of its result.
-/

namespace SmartSfp

open Lib

/-! ## Hexadecimal text -/

namespace Hex

/-- The errors of `encoding/hex`. -/
inductive HexError where
  | invalidByte (b : UInt8)
  | length
  deriving DecidableEq

/-- The value of a digit, from `reverseHexTable`. -/
def digit (b : UInt8) : Option UInt8 :=
  if 0x30 ≤ b ∧ b ≤ 0x39 then some (b - 0x30)
  else if 0x41 ≤ b ∧ b ≤ 0x46 then some (b - 0x37)
  else if 0x61 ≤ b ∧ b ≤ 0x66 then some (b - 0x57)
  else none

/-- `hex.DecodeString`. -/
def decodeString : Text → Except HexError Octets
  | p :: q :: rest =>
    match digit p, digit q with
    | none, _ => .error (.invalidByte p)
    | some _, none => .error (.invalidByte q)
    | some a, some b =>
      match decodeString rest with
      | .ok bytes => .ok ((a <<< 4 ||| b) :: bytes)
      | .error e => .error e
  -- a digit left over is an error, but one that is no digit is the earlier error
  | [p] => if digit p = none then .error (.invalidByte p) else .error .length
  | [] => .ok []

def upperDigit (n : Nat) : Char := (Nat.digitChar n).toUpper

/-- A byte as a code point in the format `%#U`. -/
def codePoint (b : UInt8) : String :=
  let n := b.toNat
  let number := s!"U+00{upperDigit (n / 16)}{upperDigit (n % 16)}"
  if 0x20 ≤ n ∧ n < 0x7f ∨ 0xa1 ≤ n ∧ n ≠ 0xad then s!"{number} '{Char.ofNat n}'" else number

def HexError.text : HexError → String
  | invalidByte b => s!"encoding/hex: invalid byte: {codePoint b}"
  | length => "encoding/hex: odd length hex string"

example : decodeString (Text.utf8 "0aFf") = .ok [0x0a, 0xff] := by decide
example : decodeString (Text.utf8 "0ag") = .error (.invalidByte 0x67) := by decide

end Hex

namespace Ipc

/-- The text of an error of the client; `quoted` is the format `%q`. -/
def ClientError.text (socket : String) (quoted : Octets → String) : ClientError → String
  | dial e => s!"dial {socket}: {e}"
  | write e => s!"write: {e}"
  | read e => s!"read: {e}"
  | parse e raw => s!"parse response: {e} (raw: {quoted raw})"
  | decode what e => s!"decode {what}: {e}"
  | unexpected result => "unexpected response shape: " ++ result

end Ipc

namespace Httpapi

open Ipc

structure RotateKeyRequest where
  keyId : UInt32
  algo : UInt8
  materialHex : Text
  deriving DecidableEq

/-- `handleRotateKey` up to its call: the answer without one, or the arguments of the call.
`decodeBody` is what the JSON decoder makes of a body. -/
def beforeRotateKey (decodeBody : Octets → Except String RotateKeyRequest) (method : String)
    (body : Octets) : Except Answer (UInt32 × UInt8 × Octets) :=
  if method ≠ "POST" then .error methodNotAllowed
  else
    match decodeBody body with
    | .error e => .error ⟨400, .error ("invalid JSON: " ++ e)⟩
    | .ok req =>
      match Hex.decodeString req.materialHex with
      | .error e => .error ⟨400, .error ("material_hex: " ++ e.text)⟩
      | .ok material => .ok (req.keyId, req.algo, material)

/-- The status that mirrors the code of an `ErrorResponse`. -/
def mirroredStatus (code : UInt32) : Nat :=
  if 400 ≤ code ∧ code < 500 then code.toNat
  else if code = 501 then 501
  else 500

/-- `handleRotateKey` from the return of its call on. -/
def afterRotateKey (errorText : ClientError → String) : Returned → Answer
  | .errorResponse e => ⟨mirroredStatus e.code, .error e.message⟩
  | .failed e => ⟨502, .error (errorText e)⟩
  -- no error
  | _ => ⟨200, .result "ok"⟩

/-! ## Statuses -/

variable {decodeBody : Octets → Except String RotateKeyRequest} {method : String} {body : Octets}
  {errorText : ClientError → String}

theorem beforeRotateKey_eq_ok {keyId : UInt32} {algo : UInt8} {material : Octets}
    (h : beforeRotateKey decodeBody method body = .ok (keyId, algo, material)) :
    ∃ req, method = "POST" ∧ decodeBody body = .ok req ∧
      Hex.decodeString req.materialHex = .ok material ∧ keyId = req.keyId ∧ algo = req.algo := by
  unfold beforeRotateKey at h
  split at h
  · cases h
  · rename_i hmethod
    split at h
    · cases h
    · rename_i req hbody
      split at h
      · cases h
      · rename_i hmaterial
        cases h
        exact ⟨req, not_not.mp hmethod, hbody, hmaterial, rfl, rfl⟩

/-- A body that is refused is the client's fault. -/
theorem status_of_beforeRotateKey {answer : Answer}
    (h : beforeRotateKey decodeBody method body = .error answer) :
    400 ≤ answer.status ∧ answer.status < 500 := by
  unfold beforeRotateKey at h
  split at h
  · cases h
    show 400 ≤ 405 ∧ 405 < 500
    decide
  · split at h
    · cases h
      show 400 ≤ 400 ∧ 400 < 500
      decide
    · split at h
      · cases h
        show 400 ≤ 400 ∧ 400 < 500
        decide
      · cases h

theorem le_mirroredStatus (code : UInt32) : 400 ≤ mirroredStatus code := by
  unfold mirroredStatus
  split
  · rename_i hcode
    exact UInt32.le_iff_toNat_le.mp hcode.1
  · split <;> decide

/-- Only a call without an error is a success. -/
theorem status_of_afterRotateKey {returned : Returned}
    (h : (afterRotateKey errorText returned).status < 400) :
    (∀ e, returned ≠ .errorResponse e) ∧ ∀ e, returned ≠ .failed e := by
  constructor
  · intro e he
    rw [he] at h
    have hle := le_mirroredStatus e.code
    simp only [afterRotateKey] at h
    omega
  · intro e he
    rw [he] at h
    simp only [afterRotateKey] at h
    omega

end Httpapi

end SmartSfp
