import SmartSfp.Crypto.Provider

/-!
# Message — the requests and responses of the control socket

The values `serde` builds and prints.  A byte field of a request comes from a base64 text that was
in memory, so it is shorter than any buffer the daemon makes for it.
-/

namespace SmartSfp

open Lib

namespace Ipc

/-- Length of the padded base64 text of `n` bytes. -/
def base64Len (n : Nat) : Nat := 4 * ((n + 2) / 3)

/-- A byte field of a deserialised request. -/
structure Payload where
  data : Octets
  text_fits : base64Len data.length ≤ isizeMax
  deriving DecidableEq

structure EncryptParams where
  nonce : Payload
  aad : Payload
  plaintext : Payload
  deriving DecidableEq

structure DecryptParams where
  frame : Payload
  deriving DecidableEq

structure RotateKeyParams where
  keyId : UInt32
  algo : UInt8
  material : Payload
  deriving DecidableEq

structure PolicyBlob where
  bytes : Octets
  deriving DecidableEq

inductive Request where
  | getStatus
  | setPolicy (p : PolicyBlob)
  | rotateKey (p : RotateKeyParams)
  | encrypt (p : EncryptParams)
  | decrypt (p : DecryptParams)
  deriving DecidableEq

structure StatusReport where
  version : String
  running : Bool
  uptimeS : UInt64
  activeProvider : String
  activeKeyId : Option UInt32
  packetsSealed : UInt64
  packetsOpened : UInt64
  cryptoErrors : UInt64
  deriving DecidableEq, Repr

inductive Response where
  | status (report : StatusReport)
  | ok
  | ciphertext (bytes : Octets)
  | plaintext (bytes : Octets)
  | error (code : UInt32) (message : String)
  deriving DecidableEq, Repr

namespace Payload

def empty : Payload := ⟨[], by decide⟩

/-- A frame around a byte field is still shorter than the longest vector. -/
theorem length_add_le (p : Payload) : p.data.length + 40 ≤ isizeMax := by
  have h := p.text_fits
  simp only [base64Len, isizeMax] at *
  omega

theorem length_le (p : Payload) : p.data.length ≤ isizeMax := by
  have h := p.length_add_le
  omega

def toSlice (p : Payload) : Slice UInt8 := ⟨p.data, p.length_le⟩

@[simp] theorem toSlice_data (p : Payload) : p.toSlice.data = p.data := rfl

end Payload

end Ipc

end SmartSfp
