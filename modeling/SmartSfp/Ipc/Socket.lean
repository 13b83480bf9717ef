import SmartSfp.Ipc.Message
import SmartSfp.Lib.Line

/-!
# Socket — `serve_connection` over a byte stream

One connection is two reliable in-order streams and the task that serves it.  A step moves one byte
or is one failure, so the runs are all ways to cut reads and writes into pieces; bytes in the
`BufReader` of the task count as not read yet.  Every byte carries a number the code does not see:
a byte of a request the call that wrote it, a byte of a response the exchange it answers.
-/

namespace SmartSfp

namespace Ipc

open Lib

abbrev Tagged := Nat × UInt8

def tagged (i : Nat) (bytes : Octets) : List Tagged := bytes.map fun b => (i, b)

def bytesOf (line : List Tagged) : Octets := line.map Prod.snd

def newline : UInt8 := 0x0a

def isNewline (b : Tagged) : Bool := b.2 == newline

/-- What the server uses of `serde_json` and of the text it reads. -/
structure Serde where
  /-- The text `read_line` makes of a line; a line that is not UTF-8 is an error. -/
  fromUtf8 : Octets → Option String
  /-- `serde_json::from_str(line.trim())`, with the text of its error. -/
  fromStr : String → Except String Request
  /-- `serde_json::to_string`. -/
  toText : Response → Octets
  /-- JSON texts on one line: a newline inside a string is escaped. -/
  newline_not_mem : ∀ response, newline ∉ toText response

/-- What `write_response` writes. -/
def Serde.responseLine (serde : Serde) (response : Response) : Octets :=
  serde.toText response ++ [newline]

/-- Where `serve_connection` is. -/
inductive ServerPc where
  | reading (line : List Tagged)
  | handling (line : List Tagged) (request : Request)
  | writing (rest : List Tagged)
  | ended
  deriving DecidableEq

structure Conn where
  /-- Neither end has closed it and it was not cut. -/
  up : Bool
  toServer : List Tagged
  toClient : List Tagged
  server : ServerPc
  deriving DecidableEq

structure Exchange where
  line : List Tagged
  response : Response
  deriving DecidableEq

/-- What the server has done so far, on all its connections. -/
structure Log where
  /-- The lines for which the handler was started. -/
  started : List (List Tagged)
  answered : List Exchange
  deriving DecidableEq

namespace Conn

def accepted : Conn := ⟨true, [], [], .reading []⟩

/-- The client closes its end. -/
def hangUp (c : Conn) : Conn := { c with up := false }

/-- The task returns, through `?` or because the process ends. -/
def finish (c : Conn) : Conn := { c with up := false, toServer := [], server := .ended }

/-- A byte the client writes; nothing arrives once the connection is down. -/
def push (b : Tagged) (c : Conn) : Conn :=
  if c.up then { c with toServer := c.toServer ++ [b] } else c

@[simp] theorem push_toClient (b : Tagged) (c : Conn) : (c.push b).toClient = c.toClient := by
  unfold push
  split <;> rfl

end Conn

inductive ServerAct where
  /-- `read_line` gets its next byte, or the end of the stream. -/
  | receive
  /-- The handler returns. -/
  | respond (response : Response)
  /-- `write_all` writes its next byte. -/
  | send
  /-- A read or a write fails, or the process ends. -/
  | fail
  /-- The connection is cut; only so many bytes in flight still arrive. -/
  | cut (toServer toClient : Nat)
  deriving DecidableEq

variable (serde : Serde)

def writeResponse (log : Log) (c : Conn) (line : List Tagged) (response : Response) : Log × Conn :=
  ({ log with answered := log.answered ++ [⟨line, response⟩] },
    { c with server := .writing (tagged log.answered.length (serde.responseLine response)) })

/-- `read_line` has returned a line. -/
def takeUp (log : Log) (c : Conn) (line : List Tagged) : Log × Conn :=
  match serde.fromUtf8 (bytesOf line) with
  | none => (log, c.finish)
  | some text =>
    match serde.fromStr text with
    | .error e => writeResponse serde log c line (.error 400 s!"bad request json: {e}")
    | .ok request =>
      ({ log with started := log.started ++ [line] }, { c with server := .handling line request })

def serveConnection (log : Log) (c : Conn) : ServerAct → Option (Log × Conn)
  | .receive =>
    match c.server, c.toServer with
    | .reading line, b :: rest =>
      if isNewline b then some (takeUp serde log { c with toServer := rest } (line ++ [b]))
      else some (log, { c with toServer := rest, server := .reading (line ++ [b]) })
    | .reading line, [] =>
      if c.up then none
      -- at the end of the stream `read_line` returns what it has; with nothing, the client closed
      else if line = [] then some (log, c.finish)
      else some (takeUp serde log c line)
    | _, _ => none
  | .respond response =>
    match c.server with
    | .handling line _ => some (writeResponse serde log c line response)
    | _ => none
  | .send =>
    match c.server with
    | .writing (b :: rest) =>
      some (log, { c with
        toClient := if c.up then c.toClient ++ [b] else c.toClient
        server := if rest = [] then .reading [] else .writing rest })
    | _ => none
  | .fail => some (log, c.finish)
  | .cut m n =>
    some (log, { c with
      up := false, toServer := c.toServer.take m, toClient := c.toClient.take n })

/-! ## Everything a step can do -/

/-- What becomes of a line taken up. -/
inductive Taken (log : Log) (c : Conn) (line : List Tagged) : Log → Conn → Prop where
  | notUtf8 : Taken log c line log c.finish
  | refused {response : Response} : Taken log c line (writeResponse serde log c line response).1
      (writeResponse serde log c line response).2
  | started {request : Request} : Taken log c line
      { log with started := log.started ++ [line] } { c with server := .handling line request }

inductive ServerMove (log : Log) (c : Conn) : Log → Conn → Prop where
  | received {line rest : List Tagged} {b : Tagged} (hserver : c.server = .reading line)
      (hto : c.toServer = b :: rest) (hb : isNewline b = false) :
      ServerMove log c log { c with toServer := rest, server := .reading (line ++ [b]) }
  | tookLine {line rest : List Tagged} {b : Tagged} {log' : Log} {c' : Conn}
      (hserver : c.server = .reading line) (hto : c.toServer = b :: rest)
      (hb : isNewline b = true)
      (htaken : Taken serde log { c with toServer := rest } (line ++ [b]) log' c') :
      ServerMove log c log' c'
  | tookRest {line : List Tagged} {log' : Log} {c' : Conn} (hserver : c.server = .reading line)
      (hto : c.toServer = []) (hup : c.up = false) (hline : line ≠ [])
      (htaken : Taken serde log c line log' c') : ServerMove log c log' c'
  | responded {line : List Tagged} {request : Request} {response : Response}
      (hserver : c.server = .handling line request) :
      ServerMove log c (writeResponse serde log c line response).1
        (writeResponse serde log c line response).2
  | sent {rest : List Tagged} {b : Tagged} (hserver : c.server = .writing (b :: rest)) :
      ServerMove log c log { c with
        toClient := if c.up then c.toClient ++ [b] else c.toClient
        server := if rest = [] then .reading [] else .writing rest }
  | finished : ServerMove log c log c.finish
  | cut {m n : Nat} : ServerMove log c log { c with
      up := false, toServer := c.toServer.take m, toClient := c.toClient.take n }

variable {serde} {log log' : Log} {c c' : Conn} {line : List Tagged} {a : ServerAct}

theorem taken_of_takeUp (h : takeUp serde log c line = (log', c')) :
    Taken serde log c line log' c' := by
  unfold takeUp at h
  split at h
  · cases h
    exact .notUtf8
  · split at h
    · cases h
      exact .refused
    · cases h
      exact .started

theorem move_of_serve (h : serveConnection serde log c a = some (log', c')) :
    ServerMove serde log c log' c' := by
  cases a with
  | receive =>
    simp only [serveConnection] at h
    split at h
    · rename_i line b rest hserver hto
      split at h
      · rename_i hb
        exact .tookLine hserver hto hb (taken_of_takeUp (Option.some.inj h))
      · rename_i hb
        cases h
        exact .received hserver hto (Bool.eq_false_iff.mpr hb)
    · rename_i line hserver hto
      split at h
      · cases h
      · rename_i hup
        split at h
        · cases h
          exact .finished
        · rename_i hline
          exact .tookRest hserver hto (Bool.eq_false_iff.mpr hup) hline
            (taken_of_takeUp (Option.some.inj h))
    · cases h
  | respond response =>
    simp only [serveConnection] at h
    split at h
    · rename_i hserver
      cases h
      exact .responded hserver
    · cases h
  | send =>
    simp only [serveConnection] at h
    split at h
    · rename_i hserver
      cases h
      exact .sent hserver
    · cases h
  | fail =>
    cases h
    exact .finished
  | cut m n =>
    cases h
    exact .cut

end Ipc

end SmartSfp
