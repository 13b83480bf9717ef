import SmartSfp.Httpapi.Rotate

/-!
# Status — the handlers of `/api/v1/status` and `/readyz`

Both make one call of `Client.GetStatus`, and show what it has returned.
-/

namespace SmartSfp.Httpapi

open Ipc

/-- `Error()` of an `ErrorResponse`. -/
def errorResponseText (e : ErrorResponse) : String := s!"cryptod error {e.code}: {e.message}"

/-- The text of the error a method of the client returns, when it returns one. -/
def returnedError (errorText : ClientError → String) : Returned → Option String
  | .errorResponse e => some (errorResponseText e)
  | .failed e => some (errorText e)
  | _ => none

/-- The `*StatusReport` of `GetStatus`. -/
def returnedReport : Returned → Option StatusReport
  | .status st => some st
  | _ => none

/-- What these handlers write. -/
inductive StatusBody where
  /-- `http.Error`, and the plain texts of the probes. -/
  | plain (text : String)
  /-- `{"error": msg}`. -/
  | error (msg : String)
  | report (st : Option StatusReport)
  deriving DecidableEq

structure StatusAnswer where
  status : Nat
  body : StatusBody
  deriving DecidableEq

/-- `handleStatus` from the return of its call on. -/
def afterStatus (errorText : ClientError → String) (returned : Returned) : StatusAnswer :=
  match returnedError errorText returned with
  | some e => ⟨502, .error e⟩
  | none => ⟨200, .report (returnedReport returned)⟩

/-- `handleStatus`, with what its call returns if it makes one. -/
def handleStatus (errorText : ClientError → String) (method : String) (returned : Returned) :
    StatusAnswer :=
  if method ≠ "GET" then ⟨405, .plain "method not allowed"⟩ else afterStatus errorText returned

/-- `handleReadyz` from the return of its call on; it looks at no method. -/
def afterReadyz (errorText : ClientError → String) (returned : Returned) : StatusAnswer :=
  match returnedError errorText returned with
  | some e => ⟨503, .error ("cryptod unreachable: " ++ e)⟩
  | none => ⟨200, .plain "ready\n"⟩

end SmartSfp.Httpapi
