import SmartSfp.Ipc.Socket
import SmartSfp.Lib.Pool

/-!
# Client — the agent's end of the control socket

`Client` keeps one connection, made when a call needs it, and serves one call at a time under its
mutex.  The system is the client, every connection it ever made with the task that serves it, and
every call started so far in the order of their start.  Marshalling a request cannot fail, so that
path of `roundtrip` is left out; errors of the network come from the environment with their text.
-/

namespace SmartSfp

namespace Ipc

open Lib

/-- A `[]byte`; nil is `none`. -/
abbrev GoBytes := Option Octets

/-- `request`: a method with its params. -/
inductive ClientRequest where
  | getStatus
  | encrypt (nonce aad plaintext : GoBytes)
  | decrypt (frame : GoBytes)
  | rotateKey (keyId : UInt32) (algo : UInt8) (material : GoBytes)
  deriving DecidableEq

/-- `responseEnvelope`; `data` is a `json.RawMessage`. -/
structure Envelope where
  result : String
  data : Octets
  deriving DecidableEq

structure ErrorResponse where
  code : UInt32
  message : String
  deriving DecidableEq

/-- What the client uses of `encoding/json`. -/
structure GoJson where
  /-- `json.Marshal(req)`. -/
  marshal : ClientRequest → Octets
  /-- JSON texts on one line: a newline inside a string is escaped. -/
  newline_not_mem : ∀ req, newline ∉ marshal req
  envelope : Octets → Except String Envelope
  statusReport : Octets → Except String StatusReport
  bytesPayload : Octets → Except String Octets
  /-- The error of this one is ignored. -/
  errorResponse : Octets → ErrorResponse

/-- The payload `roundtrip` writes. -/
def GoJson.requestLine (go : GoJson) (req : ClientRequest) : Octets := go.marshal req ++ [newline]

inductive ClientError where
  | dial (error : String)
  | write (error : String)
  | read (error : String)
  | parse (error : String) (raw : Octets)
  | decode (what error : String)
  | unexpected (result : String)
  deriving DecidableEq

/-- What a method returns. -/
inductive Returned where
  | status (report : StatusReport)
  | bytes (data : Octets)
  | ok
  | errorResponse (e : ErrorResponse)
  | failed (e : ClientError)
  | closed
  deriving DecidableEq

/-- A decoded result or an `ErrorResponse`. -/
def Returned.FromServer : Returned → Prop
  | .status _ | .bytes _ | .ok | .errorResponse _ => True
  | .failed _ | .closed => False

/-! ## What the methods make of a response line -/

namespace Client

variable (go : GoJson)

/-- The `switch env.Result` of the methods, for the one result a method expects. -/
def switchResult (want : String) (decode : Octets → Returned) (env : Envelope) : Returned :=
  if env.result = want then decode env.data
  else if env.result = "error" then .errorResponse (go.errorResponse env.data)
  else .failed (.unexpected env.result)

def decodeBytes (what : String) (data : Octets) : Returned :=
  match go.bytesPayload data with
  | .ok bytes => .bytes bytes
  | .error e => .failed (.decode what e)

def getStatus : Envelope → Returned :=
  switchResult go "status" fun data =>
    match go.statusReport data with
    | .ok report => .status report
    | .error e => .failed (.decode "status" e)

def encrypt : Envelope → Returned := switchResult go "ciphertext" (decodeBytes go "ciphertext")

def decrypt : Envelope → Returned := switchResult go "plaintext" (decodeBytes go "plaintext")

def rotateKey : Envelope → Returned := switchResult go "ok" fun _ => .ok

/-- The end of a method, from the line `roundtrip` has read on. -/
def reply (req : ClientRequest) (line : Octets) : Returned :=
  match go.envelope line with
  | .error e => .failed (.parse e line)
  | .ok env =>
    match req with
    | .getStatus => getStatus go env
    | .encrypt .. => encrypt go env
    | .decrypt _ => decrypt go env
    | .rotateKey .. => rotateKey go env

end Client

/-! ## Calls -/

inductive Call where
  | close
  | request (req : ClientRequest)
  deriving DecidableEq

/-- Where a call is. -/
inductive CallPc where
  /-- In `c.mu.Lock()`. -/
  | waiting
  /-- Holds the mutex, has not looked at the connection. -/
  | locked
  | writing (rest : Octets)
  | reading
  /-- Has returned, after reading `line` if it read one. -/
  | done (line : List Tagged) (returned : Returned)
  deriving DecidableEq

structure CallState where
  call : Call
  pc : CallPc
  deriving DecidableEq

/-- `bufio.Reader`: the connection it reads from and the bytes it has buffered. -/
structure Reader where
  conn : Nat
  buf : List Tagged
  deriving DecidableEq

structure System where
  conns : List Conn
  log : Log
  /-- The call that holds the mutex. -/
  mu : Option Nat
  conn : Option Nat
  reader : Option Reader
  calls : List CallState
  deriving DecidableEq

namespace System

/-- `New`. -/
def new : System := ⟨[], ⟨[], []⟩, none, none, none, []⟩

/-- `c.conn.Close(); c.conn = nil; c.reader = nil`. -/
def dropConn (s : System) : System :=
  { s with
    conns := match s.conn with
      | some k => s.conns.modify k Conn.hangUp
      | none => s.conns
    conn := none
    reader := none }

/-- `c.conn = conn; c.reader = bufio.NewReader(conn)` on a new connection. -/
def dialed (s : System) : System :=
  { s with
    conns := s.conns ++ [Conn.accepted]
    conn := some s.conns.length
    reader := some ⟨s.conns.length, []⟩ }

def goto (s : System) (i : Nat) (t : CallState) (pc : CallPc) : System :=
  { s with calls := s.calls.set i { t with pc := pc } }

/-- `return`, which also unlocks the mutex. -/
def ret (s : System) (i : Nat) (t : CallState) (line : List Tagged) (returned : Returned) :
    System :=
  { s.goto i t (.done line returned) with mu := none }

end System

inductive ClientAct where
  | lock
  /-- `Close` or `connect` with what `DialContext` would return. -/
  | enter (dial : Except String Unit)
  /-- `Write` writes its next byte. -/
  | write
  | writeFailed (error : String)
  /-- The reader gets its next byte. -/
  | fill
  | readLine
  /-- The deadline, the end of the stream or an error of the connection. -/
  | readFailed (error : String)
  deriving DecidableEq

namespace Client

variable (go : GoJson)

/-- `Close`, with the mutex held. -/
def close (i : Nat) (t : CallState) (s : System) : System :=
  match s.conn with
  | some _ => s.dropConn.ret i t [] .closed
  | none => s.ret i t [] .closed

/-- `connect`, and the call goes on to write its payload. -/
def connect (i : Nat) (t : CallState) (req : ClientRequest) (dial : Except String Unit)
    (s : System) : System :=
  match s.conn with
  | some _ => s.goto i t (.writing (go.requestLine req))
  | none =>
    match dial with
    | .error e => s.ret i t [] (.failed (.dial e))
    | .ok _ =>
      s.dialed.goto i t (.writing (go.requestLine req))

/-- The next step of call `i`. -/
def callStep (i : Nat) (t : CallState) (s : System) : ClientAct → Option System
  | .lock =>
    match t.pc, s.mu with
    | .waiting, none => some { s.goto i t .locked with mu := some i }
    | _, _ => none
  | .enter dial =>
    match t.pc, t.call with
    | .locked, .close => some (close i t s)
    | .locked, .request req => some (connect go i t req dial s)
    | _, _ => none
  | .write =>
    match t.pc, s.conn with
    | .writing (b :: rest), some k =>
      some ({ s with conns := s.conns.modify k (Conn.push (i, b)) }.goto i t
        (if rest = [] then .reading else .writing rest))
    | _, _ => none
  | .writeFailed e =>
    match t.pc with
    | .writing _ => some (s.dropConn.ret i t [] (.failed (.write e)))
    | _ => none
  | .fill =>
    match t.pc, s.reader with
    | .reading, some r =>
      match s.conns[r.conn]? with
      | some c =>
        match c.toClient with
        | b :: rest =>
          some { s with
            conns := s.conns.set r.conn { c with toClient := rest }
            reader := some { r with buf := r.buf ++ [b] } }
        | [] => none
      | none => none
    | _, _ => none
  | .readLine =>
    match t.pc, t.call, s.reader with
    | .reading, .request req, some r =>
      match takeLine isNewline r.buf with
      | some (line, rest) =>
        some ({ s with reader := some { r with buf := rest } }.ret i t line
          (reply go req (bytesOf line)))
      | none => none
    | _, _, _ => none
  | .readFailed e =>
    match t.pc, s.reader with
    | .reading, some r =>
      match takeLine isNewline r.buf with
      | none => some (s.dropConn.ret i t [] (.failed (.read e)))
      | some _ => none
    | _, _ => none

end Client

/-! ## The system -/

inductive Act where
  /-- A goroutine calls a method. -/
  | start (call : Call)
  | client (i : Nat) (a : ClientAct)
  | server (k : Nat) (a : ServerAct)

namespace System

variable (go : GoJson) (serde : Serde)

def next (s : System) : Act → Option System
  | .start call => some { s with calls := s.calls ++ [⟨call, .waiting⟩] }
  | .client i a =>
    match s.calls[i]? with
    | some t => Client.callStep go i t s a
    | none => none
  | .server k a =>
    match s.conns[k]? with
    | some c =>
      match serveConnection serde s.log c a with
      | some (log', c') => some { s with log := log', conns := s.conns.set k c' }
      | none => none
    | none => none

/-- `next` as a transition relation. -/
def Step (s : System) (a : Act) (s' : System) : Prop := next go serde s a = some s'

/-- Execute a schedule. -/
def exec (s : System) : List Act → Option System
  | [] => some s
  | a :: as => (next go serde s a).bind fun s' => exec s' as

end System

/-! ## Everything a step can do -/

/-- The steps of a call, by what they do. -/
inductive Client.Move (go : GoJson) (i : Nat) (t : CallState) (s : System) : System → Prop where
  | locked (hpc : t.pc = .waiting) (hmu : s.mu = none) :
      Move go i t s { s.goto i t .locked with mu := some i }
  | closed {k : Nat} (hpc : t.pc = .locked) (hconn : s.conn = some k) :
      Move go i t s (s.dropConn.ret i t [] .closed)
  | closedIdle (hpc : t.pc = .locked) (hconn : s.conn = none) :
      Move go i t s (s.ret i t [] .closed)
  | reused {req : ClientRequest} {k : Nat} (hpc : t.pc = .locked) (hcall : t.call = .request req)
      (hconn : s.conn = some k) : Move go i t s (s.goto i t (.writing (go.requestLine req)))
  | dialFailed {error : String} (hpc : t.pc = .locked) (hconn : s.conn = none) :
      Move go i t s (s.ret i t [] (.failed (.dial error)))
  | dialed {req : ClientRequest} (hpc : t.pc = .locked) (hcall : t.call = .request req)
      (hconn : s.conn = none) :
      Move go i t s (s.dialed.goto i t (.writing (go.requestLine req)))
  | wrote {b : UInt8} {rest : Octets} {k : Nat} (hpc : t.pc = .writing (b :: rest))
      (hconn : s.conn = some k) :
      Move go i t s ({ s with conns := s.conns.modify k (Conn.push (i, b)) }.goto i t
        (if rest = [] then .reading else .writing rest))
  | writeFailed {rest : Octets} {error : String} (hpc : t.pc = .writing rest) :
      Move go i t s (s.dropConn.ret i t [] (.failed (.write error)))
  | filled {r : Reader} {c : Conn} {b : Tagged} {rest : List Tagged} (hpc : t.pc = .reading)
      (hreader : s.reader = some r) (hc : s.conns[r.conn]? = some c)
      (hto : c.toClient = b :: rest) :
      Move go i t s { s with
        conns := s.conns.set r.conn { c with toClient := rest }
        reader := some { r with buf := r.buf ++ [b] } }
  | returned {req : ClientRequest} {r : Reader} {line rest : List Tagged} (hpc : t.pc = .reading)
      (hcall : t.call = .request req) (hreader : s.reader = some r)
      (hline : takeLine isNewline r.buf = some (line, rest)) :
      Move go i t s ({ s with reader := some { r with buf := rest } }.ret i t line
        (Client.reply go req (bytesOf line)))
  | readFailed {error : String} (hpc : t.pc = .reading) :
      Move go i t s (s.dropConn.ret i t [] (.failed (.read error)))

theorem Client.move_of_step {go : GoJson} {i : Nat} {t : CallState} {s s' : System} {a : ClientAct}
    (h : Client.callStep go i t s a = some s') : Client.Move go i t s s' := by
  cases a with
  | lock =>
    simp only [Client.callStep] at h
    split at h
    · rename_i hpc hmu
      cases h
      exact .locked hpc hmu
    · cases h
  | enter dial =>
    simp only [Client.callStep] at h
    split at h
    · rename_i hpc hcall
      cases hconn : s.conn with
      | none =>
        simp only [Client.close, hconn] at h
        cases h
        exact .closedIdle hpc hconn
      | some k =>
        simp only [Client.close, hconn] at h
        cases h
        exact .closed hpc hconn
    · rename_i req hpc hcall
      cases hconn : s.conn with
      | none =>
        cases dial with
        | error e =>
          simp only [Client.connect, hconn] at h
          cases h
          exact .dialFailed hpc hconn
        | ok u =>
          simp only [Client.connect, hconn] at h
          cases h
          exact .dialed hpc hcall hconn
      | some k =>
        simp only [Client.connect, hconn] at h
        cases h
        exact .reused hpc hcall hconn
    · cases h
  | write =>
    simp only [Client.callStep] at h
    split at h
    · rename_i hpc hconn
      cases h
      exact .wrote hpc hconn
    · cases h
  | writeFailed e =>
    simp only [Client.callStep] at h
    split at h
    · rename_i hpc
      cases h
      exact .writeFailed hpc
    · cases h
  | fill =>
    simp only [Client.callStep] at h
    split at h
    · rename_i hpc hreader
      split at h
      · rename_i hc
        split at h
        · rename_i hto
          cases h
          exact .filled hpc hreader hc hto
        · cases h
      · cases h
    · cases h
  | readLine =>
    simp only [Client.callStep] at h
    split at h
    · rename_i hpc hcall hreader
      split at h
      · rename_i hline
        cases h
        exact .returned hpc hcall hreader hline
      · cases h
    · cases h
  | readFailed e =>
    simp only [Client.callStep] at h
    split at h
    · rename_i hpc hreader
      split at h
      · cases h
        exact .readFailed hpc
      · cases h
    · cases h

/-- A step of the system starts a call, or is a step of one call or of one server task. -/
theorem System.step_cases {go : GoJson} {serde : Serde} {s s' : System} {a : Act}
    (h : System.Step go serde s a s') :
    (∃ call, s' = { s with calls := s.calls ++ [⟨call, .waiting⟩] }) ∨
    (∃ i t, s.calls[i]? = some t ∧ Client.Move go i t s s') ∨
    ∃ k c log' c', s.conns[k]? = some c ∧ ServerMove serde s.log c log' c' ∧
      s' = { s with log := log', conns := s.conns.set k c' } := by
  cases a with
  | start call => exact .inl ⟨call, (Option.some.inj h).symm⟩
  | client i a =>
    simp only [System.Step, System.next] at h
    split at h
    · rename_i t ht
      exact .inr (.inl ⟨i, t, ht, Client.move_of_step h⟩)
    · cases h
  | server k a =>
    simp only [System.Step, System.next] at h
    split at h
    · rename_i c hc
      split at h
      · rename_i log' c' hserve
        exact .inr (.inr ⟨k, c, log', c', hc, move_of_serve hserve, (Option.some.inj h).symm⟩)
      · cases h
    · cases h

theorem System.run_of_exec {go : GoJson} {serde : Serde} {s s' : System} {acts : List Act}
    (h : s.exec go serde acts = some s') : Run (System.Step go serde) s acts s' := by
  induction acts generalizing s with
  | nil =>
    cases h
    exact .nil
  | cons a acts ih =>
    obtain ⟨u, hu, hacts⟩ := Option.bind_eq_some_iff.mp h
    exact Run.cons hu (ih hacts)

end Ipc

end SmartSfp
