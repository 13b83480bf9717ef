import SmartSfp.Sysmon.Reader

/-!
# System — answers of the HTTP interface, and the one of `/api/v1/system`
-/

namespace SmartSfp.Httpapi

open Sysmon

inductive Body where
  /-- `http.Error`. -/
  | plain (text : String)
  /-- `{"error": msg}`. -/
  | error (msg : String)
  | snapshot (snap : Snapshot)
  /-- `{"result": text}`. -/
  | result (text : String)
  deriving DecidableEq

structure Answer where
  status : Nat
  body : Body
  deriving DecidableEq

def methodNotAllowed : Answer := ⟨405, .plain "method not allowed"⟩

def handleSystem (sys : Reader) (method : String) (k : Kernel) : Answer × Reader :=
  if method ≠ "GET" then (methodNotAllowed, sys)
  else
    match sys.snapshot k with
    | (.error e, sys) => (⟨500, .error e⟩, sys)
    | (.ok snap, sys) => (⟨200, .snapshot snap⟩, sys)

end SmartSfp.Httpapi
