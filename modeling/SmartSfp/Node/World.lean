import SmartSfp.Cryptod.Freshness
import SmartSfp.Cryptod.Totality
import SmartSfp.Httpapi.Rotate
import SmartSfp.Ipc.Reply
import SmartSfp.Ipc.Uptake

/-!
# World — the agent and `acm-cryptod` together

The handlers of the HTTP interface call the client, the client and the tasks of the server exchange
bytes, and a task that has read a request runs its handler in the daemon.  The parts are those
modelled on their own; what is added here is who starts what and who waits for whom.  Other clients
of the socket show only in the handlers they start.
-/

namespace SmartSfp

namespace Node

open Lib Ipc Cryptod Httpapi

/-- What the two programs are built on and configured with. -/
structure Platform where
  crate : Gcm.Crate
  /-- `json.NewDecoder(r.Body).Decode(&req)`, with the text of its error. -/
  decodeBody : Octets → Except String RotateKeyRequest
  /-- The path of the socket. -/
  socket : String
  /-- The format `%q`. -/
  quoted : Octets → String
  /-- The texts of the errors of `serde_json` and `encoding/json`. -/
  requestError : String → String
  responseError : Octets → String
  /-- The results of the other methods. -/
  statusReport : Octets → Except String StatusReport
  bytesPayload : Octets → Except String Octets

namespace Platform

variable (pf : Platform)

def go : GoJson := goJson pf.responseError pf.statusReport pf.bytesPayload

def serde : Serde := serdeJson pf.requestError

def errorText : ClientError → String := ClientError.text pf.socket pf.quoted

end Platform

/-- A request to `/api/v1/keys/rotate`. -/
structure Post where
  method : String
  body : Octets
  /-- The call of `RotateKey` it made. -/
  call : Option Nat
  answer : Option Answer
  deriving DecidableEq

/-- The handler started for a line that a connection took up. -/
structure Handling where
  conn : Nat
  task : Nat
  line : List Tagged
  deriving DecidableEq

structure World where
  posts : List Post
  ipc : System
  daemon : Daemon
  /-- The last one first. -/
  handlings : List Handling
  deriving DecidableEq

inductive Act where
  /-- A request to `/api/v1/keys/rotate` arrives. -/
  | post (method : String) (body : Octets)
  /-- Its handler goes on: to the call it makes, or to its answer. -/
  | handle (h : Nat)
  /-- Another goroutine of the agent calls the client. -/
  | start (call : Call)
  | client (i : Nat) (a : ClientAct)
  | server (k : Nat) (a : ServerAct)
  /-- A handler of the daemon takes a step. -/
  | task (j : Nat) (elapsed : UInt64)
  /-- A request from another client of the socket. -/
  | other (request : Request)

namespace World

def new (s : CryptodState) : World := ⟨[], System.new, idle s, []⟩

/-- A request to `/api/v1/keys/rotate` arrives. -/
def posted (w : World) (method : String) (body : Octets) : World :=
  { w with posts := w.posts ++ [⟨method, body, none, none⟩] }

/-- The task that handles the last request of connection `k`. -/
def handler (w : World) (k : Nat) : Option Handling := w.handlings.find? fun hd => hd.conn == k

/-- The handler that connection `k` waits for has returned `response`. -/
def returned (w : World) (k : Nat) (response : Response) : Bool :=
  match w.handler k with
  | some hd => w.daemon.tasks[hd.task]?.map Task.pc == some (.done response)
  | none => false

/-- Connection `k` waits for the handler of a request. -/
def waiting (ipc : System) (k : Nat) : Option (List Tagged × Request) :=
  match ipc.conns[k]? with
  | some c =>
    match c.server with
    | .handling line request => some (line, request)
    | _ => none
  | none => none

def spawn (w : World) (request : Request) : World :=
  { w with daemon := ⟨w.daemon.shared, w.daemon.tasks ++ [⟨request, .received⟩]⟩ }

/-- Connection `k` starts the handler of a request. -/
def startHandler (w : World) (k : Nat) (line : List Tagged) (request : Request) : World :=
  { w.spawn request with handlings := ⟨k, w.daemon.tasks.length, line⟩ :: w.handlings }

variable (pf : Platform)

/-- The handler of the `h`-th request to the HTTP interface. -/
def handlePost (w : World) (h : Nat) (p : Post) : Option World :=
  match p.answer, p.call with
  | some _, _ => none
  | none, none =>
    match beforeRotateKey pf.decodeBody p.method p.body with
    | .error answer => some { w with posts := w.posts.set h { p with answer := some answer } }
    | .ok (keyId, algo, material) =>
      some { w with
        posts := w.posts.set h { p with call := some w.ipc.calls.length }
        ipc := { w.ipc with
          calls := w.ipc.calls ++ [⟨.request (.rotateKey keyId algo (some material)), .waiting⟩] } }
  | none, some i =>
    match w.ipc.calls[i]? with
    | some ⟨_, .done _ r⟩ =>
      some { w with
        posts := w.posts.set h { p with answer := some (afterRotateKey pf.errorText r) } }
    | _ => none

/-- A step of the task that serves connection `k`. -/
def serve (w : World) (k : Nat) (a : ServerAct) (ipc : System) : Option World :=
  match a with
  | .receive =>
    match waiting ipc k with
    | some (line, request) => some { w.startHandler k line request with ipc := ipc }
    | none => some { w with ipc := ipc }
  | .respond response => if w.returned k response then some { w with ipc := ipc } else none
  | _ => some { w with ipc := ipc }

def next (w : World) : Act → Option World
  | .post method body => some (w.posted method body)
  | .handle h =>
    match w.posts[h]? with
    | some p => handlePost pf w h p
    | none => none
  | .start call =>
    (System.next pf.go pf.serde w.ipc (.start call)).map fun ipc => { w with ipc := ipc }
  | .client i a =>
    (System.next pf.go pf.serde w.ipc (.client i a)).map fun ipc => { w with ipc := ipc }
  | .server k a =>
    match System.next pf.go pf.serde w.ipc (.server k a) with
    | some ipc => w.serve k a ipc
    | none => none
  | .task j elapsed =>
    (Pool.next (Cryptod.daemon pf.crate) w.daemon (.run j elapsed)).map fun d =>
      { w with daemon := d }
  | .other request => some (w.spawn request)

/-- `next` as a transition relation. -/
def Step (w : World) (a : Act) (w' : World) : Prop := next pf w a = some w'

end World

/-! ## Everything a step can do -/

open World

variable {pf : Platform} {w w' : World} {a : Act}

/-- The steps of the world, by what they do. -/
inductive Move (pf : Platform) (w : World) : Act → World → Prop where
  | posted {method : String} {body : Octets} : Move pf w (.post method body) (w.posted method body)
  | refused {h : Nat} {p : Post} {answer : Answer} (hp : w.posts[h]? = some p)
      (hcall : p.call = none) (hanswer : p.answer = none)
      (hbefore : beforeRotateKey pf.decodeBody p.method p.body = .error answer) :
      Move pf w (.handle h) { w with posts := w.posts.set h { p with answer := some answer } }
  | called {h : Nat} {p : Post} {keyId : UInt32} {algo : UInt8} {material : Octets}
      (hp : w.posts[h]? = some p) (hcall : p.call = none) (hanswer : p.answer = none)
      (hbefore : beforeRotateKey pf.decodeBody p.method p.body = .ok (keyId, algo, material)) :
      Move pf w (.handle h) { w with
        posts := w.posts.set h { p with call := some w.ipc.calls.length }
        ipc := { w.ipc with
          calls := w.ipc.calls ++ [⟨.request (.rotateKey keyId algo (some material)), .waiting⟩] } }
  | replied {h i : Nat} {p : Post} {call : Call} {line : List Tagged} {r : Returned}
      (hp : w.posts[h]? = some p) (hcall : p.call = some i) (hanswer : p.answer = none)
      (ht : w.ipc.calls[i]? = some ⟨call, .done line r⟩) :
      Move pf w (.handle h) { w with
        posts := w.posts.set h { p with answer := some (afterRotateKey pf.errorText r) } }
  | started {call : Call} : Move pf w (.start call)
      { w with ipc := { w.ipc with calls := w.ipc.calls ++ [⟨call, .waiting⟩] } }
  | client {i : Nat} {x : ClientAct} {ipc : System}
      (hstep : System.Step pf.go pf.serde w.ipc (.client i x) ipc) :
      Move pf w (.client i x) { w with ipc := ipc }
  | tookUp {k : Nat} {ipc : System} {line : List Tagged} {request : Request}
      (hstep : System.Step pf.go pf.serde w.ipc (.server k .receive) ipc)
      (hwaiting : waiting ipc k = some (line, request)) :
      Move pf w (.server k .receive) { w.startHandler k line request with ipc := ipc }
  | served {k : Nat} {x : ServerAct} {ipc : System}
      (hstep : System.Step pf.go pf.serde w.ipc (.server k x) ipc)
      (hreceive : x = .receive → waiting ipc k = none)
      (hrespond : ∀ response, x = .respond response → w.returned k response = true) :
      Move pf w (.server k x) { w with ipc := ipc }
  | ran {j : Nat} {elapsed : UInt64} {d : Daemon}
      (hstep : Pool.Step (Cryptod.daemon pf.crate) w.daemon (.run j elapsed) d) :
      Move pf w (.task j elapsed) { w with daemon := d }
  | other {request : Request} : Move pf w (.other request) (w.spawn request)

theorem move_of_handlePost {h : Nat} {p : Post} (hp : w.posts[h]? = some p)
    (hstep : handlePost pf w h p = some w') : Move pf w (.handle h) w' := by
  unfold handlePost at hstep
  split at hstep
  · cases hstep
  · rename_i hanswer hcall
    split at hstep
    · rename_i hbefore
      cases hstep
      exact .refused hp hcall hanswer hbefore
    · rename_i hbefore
      cases hstep
      exact .called hp hcall hanswer hbefore
  · rename_i hanswer hcall
    split at hstep
    · rename_i ht
      cases hstep
      exact .replied hp hcall hanswer ht
    · cases hstep

theorem move_of_serve {k : Nat} {x : ServerAct} {ipc : System}
    (hstep : System.Step pf.go pf.serde w.ipc (.server k x) ipc)
    (h : w.serve k x ipc = some w') : Move pf w (.server k x) w' := by
  cases x with
  | receive =>
    simp only [serve] at h
    split at h
    · rename_i hwaiting
      cases h
      exact .tookUp hstep hwaiting
    · rename_i hwaiting
      cases h
      exact .served hstep (fun _ => hwaiting) fun _ hx => by cases hx
  | respond response =>
    simp only [serve] at h
    split at h
    · rename_i hreturned
      cases h
      refine .served hstep (fun hx => by cases hx) fun response' hx => ?_
      cases hx
      exact hreturned
    · cases h
  | _ =>
    cases h
    exact .served hstep (fun hx => by cases hx) fun _ hx => by cases hx

theorem move_of_step (h : Step pf w a w') : Move pf w a w' := by
  cases a with
  | post method body =>
    cases h
    exact .posted
  | handle i =>
    simp only [Step, next] at h
    split at h
    · rename_i hp
      exact move_of_handlePost hp h
    · cases h
  | start call =>
    cases h
    exact .started
  | client i x =>
    simp only [Step, next] at h
    obtain ⟨ipc, hipc, rfl⟩ := Option.map_eq_some_iff.mp h
    exact .client hipc
  | server k x =>
    simp only [Step, next] at h
    split at h
    · rename_i hipc
      exact move_of_serve hipc h
    · cases h
  | task j elapsed =>
    simp only [Step, next] at h
    obtain ⟨d, hd, rfl⟩ := Option.map_eq_some_iff.mp h
    exact .ran hd
  | other request =>
    cases h
    exact .other

/-! ## The parts of a run -/

/-- The client and the server take a step of their own, or none. -/
theorem Move.ipc (h : Move pf w a w') :
    w'.ipc = w.ipc ∨ ∃ x, System.Step pf.go pf.serde w.ipc x w'.ipc := by
  cases h with
  | called hp hcall hanswer hbefore => exact .inr ⟨.start _, rfl⟩
  | @started call => exact .inr ⟨.start call, rfl⟩
  | client hstep => exact .inr ⟨_, hstep⟩
  | tookUp hstep hwaiting => exact .inr ⟨_, hstep⟩
  | served hstep hreceive hrespond => exact .inr ⟨_, hstep⟩
  | _ => exact .inl rfl

/-- A handler of the daemon takes a step, starts, or none does. -/
theorem Move.daemon (h : Move pf w a w') :
    w'.daemon = w.daemon ∨ ∃ x, Pool.Step (Cryptod.daemon pf.crate) w.daemon x w'.daemon := by
  cases h with
  | tookUp hstep hwaiting => exact .inr ⟨.spawn _, rfl⟩
  | ran hstep => exact .inr ⟨_, hstep⟩
  | @other request => exact .inr ⟨.spawn request, rfl⟩
  | _ => exact .inl rfl

theorem run_ipc {s : CryptodState} {acts : List Act} (h : Run (Step pf) (new s) acts w) :
    ∃ xs, Run (System.Step pf.go pf.serde) System.new xs w.ipc :=
  h.project World.ipc fun _ _ _ hstep => (move_of_step hstep).ipc

/-- Whatever is proved of every run of the daemon holds of it here. -/
theorem run_daemon {s : CryptodState} {acts : List Act} (h : Run (Step pf) (new s) acts w) :
    ∃ xs, Run (Pool.Step (Cryptod.daemon pf.crate)) (idle s) xs w.daemon :=
  h.project World.daemon fun _ _ _ hstep => (move_of_step hstep).daemon

end Node

end SmartSfp
