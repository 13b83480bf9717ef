import SmartSfp.Cryptod.Solo
import SmartSfp.Node.Program

/-!
# Realise — a program against the handlers, done over the socket

A call whose request the server can read goes through: its bytes arrive, the handler runs, and the
line of its answer comes back.  So whatever a program can do against the handlers of the daemon it
can do over the socket.
-/

namespace SmartSfp

namespace Node

open Lib Ipc Cryptod Httpapi World

variable {pf : Platform} {w w' w'' : World} {a : Act} {i k : Nat} {req : ClientRequest}
  {pc : CallPc} {c : Conn} {buf : List Tagged}

/-! ## What happens besides -/

/-- No goroutine makes a call meanwhile, no one else has a part in it, and no task dies. -/
def Goes (pf : Platform) (w w' : World) : Prop :=
  ∃ acts, Run (Step pf) w acts w' ∧ ∀ a ∈ acts, a.goroutine = false ∧ a.foreign = false

theorem Goes.refl (w : World) : Goes pf w w :=
  ⟨[], .nil, fun _ h => absurd h List.not_mem_nil⟩

theorem Goes.step (h : Goes pf w w') (hstep : Step pf w' a w'')
    (ha : a.goroutine = false ∧ a.foreign = false) : Goes pf w w'' := by
  obtain ⟨acts, hrun, hacts⟩ := h
  refine ⟨acts ++ [a], hrun.snoc hstep, fun b hb => ?_⟩
  rcases List.mem_append.mp hb with hb | hb
  · exact hacts b hb
  · rw [List.mem_singleton.mp hb]
    exact ha

theorem Goes.trans (h : Goes pf w w') (h' : Goes pf w' w'') : Goes pf w w'' := by
  obtain ⟨acts, hrun, hacts⟩ := h
  obtain ⟨acts', hrun', hacts'⟩ := h'
  exact ⟨acts ++ acts', hrun.append hrun', fun b hb =>
    (List.mem_append.mp hb).elim (hacts b) (hacts' b)⟩

/-- Nothing but call `i` and the bytes on the socket is touched. -/
structure Beside (i : Nat) (w w' : World) : Prop where
  calls : ∀ j, j ≠ i → w'.ipc.calls[j]? = w.ipc.calls[j]?
  length : w'.ipc.calls.length = w.ipc.calls.length
  daemon : w'.daemon = w.daemon
  handlings : w'.handlings = w.handlings

theorem Beside.refl (i : Nat) (w : World) : Beside i w w := ⟨fun _ _ => rfl, rfl, rfl, rfl⟩

theorem Beside.trans (h : Beside i w w') (h' : Beside i w' w'') : Beside i w w'' where
  calls j hj := (h'.calls j hj).trans (h.calls j hj)
  length := h'.length.trans h.length
  daemon := h'.daemon.trans h.daemon
  handlings := h'.handlings.trans h.handlings

/-- Call `i` holds the mutex and is at `pc`; the current connection is `k`, which is in `c`, and the
client has read `buf` of it ahead. -/
structure At (i k : Nat) (req : ClientRequest) (pc : CallPc) (c : Conn) (buf : List Tagged)
    (w : World) : Prop where
  mu : w.ipc.mu = some i
  conn : w.ipc.conn = some k
  reader : w.ipc.reader = some ⟨k, buf⟩
  served : w.ipc.conns[k]? = some c
  call : w.ipc.calls[i]? = some ⟨.request req, pc⟩

/-- What the steps from one place to another come to. -/
def Reaches (pf : Platform) (i k : Nat) (req : ClientRequest) (pc : CallPc) (c : Conn)
    (buf : List Tagged) (w : World) : Prop :=
  ∃ w', Goes pf w w' ∧ At i k req pc c buf w' ∧ Beside i w w'

theorem Reaches.bind {pc' : CallPc} {c' : Conn} {buf' : List Tagged}
    (h : Reaches pf i k req pc c buf w)
    (hnext : ∀ w', At i k req pc c buf w' → Reaches pf i k req pc' c' buf' w') :
    Reaches pf i k req pc' c' buf' w := by
  obtain ⟨u, hgoes, hat, hbeside⟩ := h
  obtain ⟨v, hgoes', hat', hbeside'⟩ := hnext u hat
  exact ⟨v, hgoes.trans hgoes', hat', hbeside.trans hbeside'⟩

theorem At.reaches (h : At i k req pc c buf w) : Reaches pf i k req pc c buf w :=
  ⟨w, .refl w, h, .refl i w⟩

/-! ## The request -/

theorem At.write {b : UInt8} {rest : Octets} (h : At i k req (.writing (b :: rest)) c buf w)
    (hup : c.up = true) :
    Reaches pf i k req (if rest = [] then .reading else .writing rest)
      { c with toServer := c.toServer ++ [(i, b)] } buf w := by
  have hpush : c.push (i, b) = { c with toServer := c.toServer ++ [(i, b)] } := by
    simp [Conn.push, hup]
  have hmodify := modify_eq_set_of_getElem? (f := Conn.push (i, b)) h.served
  rw [hpush] at hmodify
  have hstep : Step pf w (.client i .write) { w with
      ipc := ({ w.ipc with conns := w.ipc.conns.modify k (Conn.push (i, b)) } : System).goto i
        ⟨.request req, .writing (b :: rest)⟩ (if rest = [] then .reading else .writing rest) } := by
    simp only [Step, World.next, System.next, h.call, Client.callStep, h.conn, Option.map_some]
  refine ⟨_, (Goes.refl w).step hstep ⟨rfl, rfl⟩, ⟨h.mu, h.conn, h.reader, ?_, ?_⟩, ?_⟩
  · show (w.ipc.conns.modify k (Conn.push (i, b)))[k]? = _
    rw [hmodify, List.getElem?_set_self (List.getElem?_eq_some_iff.mp h.served).1]
  · exact List.getElem?_set_self (List.getElem?_eq_some_iff.mp h.call).1
  · refine ⟨fun j hj => List.getElem?_set_ne hj.symm, List.length_set .., rfl, rfl⟩

theorem At.write_all {bytes : Octets} (h : At i k req (.writing bytes) c buf w)
    (hup : c.up = true) (hne : bytes ≠ []) :
    Reaches pf i k req .reading { c with toServer := c.toServer ++ tagged i bytes } buf w := by
  induction bytes generalizing w c with
  | nil => exact absurd rfl hne
  | cons b rest ih =>
    refine (h.write hup).bind fun w' hat => ?_
    by_cases hrest : rest = []
    · subst hrest
      exact hat.reaches
    · rw [if_neg hrest] at hat
      have hmore := ih hat hup hrest
      rw [List.append_assoc] at hmore
      exact hmore

/-- A step of the server's task that starts no handler. -/
theorem At.serve {x : ServerAct} {c' : Conn} {log' : Log} (h : At i k req pc c buf w)
    (hserve : serveConnection pf.serde w.ipc.log c x = some (log', c'))
    (hreceive : x = .receive → ∀ line request, c'.server ≠ .handling line request)
    (hrespond : ∀ response, x = .respond response → w.returned k response = true)
    (hx : (Act.server k x).foreign = false) : Reaches pf i k req pc c' buf w := by
  have hself : (w.ipc.conns.set k c')[k]? = some c' :=
    List.getElem?_set_self (List.getElem?_eq_some_iff.mp h.served).1
  have hstep : Step pf w (.server k x)
      { w with ipc := { w.ipc with log := log', conns := w.ipc.conns.set k c' } } := by
    simp only [Step, World.next, System.next, h.served, hserve]
    cases x with
    | receive =>
      have hwaiting :
          waiting { w.ipc with log := log', conns := w.ipc.conns.set k c' } k = none := by
        simp only [waiting, hself]
        split
        · rename_i line request hserver
          exact absurd hserver (hreceive rfl line request)
        · rfl
      simp only [World.serve, hwaiting]
    | respond response => simp only [World.serve, hrespond response rfl, if_true]
    | send => rfl
    | fail => cases hx
    | cut m n => rfl
  exact ⟨_, (Goes.refl w).step hstep ⟨rfl, hx⟩, ⟨h.mu, h.conn, h.reader, hself, h.call⟩,
    ⟨fun _ _ => rfl, rfl, rfl, rfl⟩⟩

/-- The bytes of a line before its newline. -/
theorem At.receive_all {line bytes rest : List Tagged} (h : At i k req pc c buf w)
    (hserver : c.server = .reading line) (hto : c.toServer = bytes ++ rest)
    (hbytes : ∀ b ∈ bytes, isNewline b = false) :
    Reaches pf i k req pc { c with toServer := rest, server := .reading (line ++ bytes) } buf
      w := by
  induction bytes generalizing w c line with
  | nil =>
    rw [List.append_nil, ← hserver]
    have hsame : { c with toServer := rest, server := c.server } = c := by
      rw [show rest = c.toServer from hto.symm]
    rw [hsame]
    exact h.reaches
  | cons b bytes ih =>
    have hb := hbytes b List.mem_cons_self
    have hserve : serveConnection pf.serde w.ipc.log c .receive = some (w.ipc.log,
        { c with toServer := bytes ++ rest, server := .reading (line ++ [b]) }) := by
      simp only [serveConnection, hserver, hto, List.cons_append, hb, Bool.false_eq_true, if_false]
    refine (h.serve hserve (by simp) (by simp) rfl).bind fun w' hat => ?_
    have hmore := ih hat rfl rfl fun d hd => hbytes d (List.mem_cons_of_mem _ hd)
    rw [List.append_assoc] at hmore
    exact hmore

/-- The newline: the handler of the request is started. -/
theorem At.take_up {line : List Tagged} {b : Tagged} {request : Request}
    (h : At i k req pc c buf w) (hserver : c.server = .reading line) (hto : c.toServer = [b])
    (hb : isNewline b = true) (hdecode : pf.serde.decode (line ++ [b]) = some request) :
    ∃ w', Goes pf w w' ∧
      At i k req pc { c with toServer := [], server := .handling (line ++ [b]) request } buf w' ∧
      (∀ j, j ≠ i → w'.ipc.calls[j]? = w.ipc.calls[j]?) ∧
      w'.ipc.calls.length = w.ipc.calls.length ∧
      w'.daemon = ⟨w.daemon.shared, w.daemon.tasks ++ [⟨request, .received⟩]⟩ ∧
      w'.handlings = ⟨k, w.daemon.tasks.length, line ++ [b]⟩ :: w.handlings := by
  have hserve : serveConnection pf.serde w.ipc.log c .receive = some
      ({ w.ipc.log with started := w.ipc.log.started ++ [line ++ [b]] },
        { c with toServer := [], server := .handling (line ++ [b]) request }) := by
    simp only [serveConnection, hserver, hto, hb, if_true]
    rw [takeUp_of_decode hdecode]
  generalize hlog : ({ w.ipc.log with started := w.ipc.log.started ++ [line ++ [b]] } : Log) = log'
    at hserve
  generalize hc : ({ c with toServer := [], server := .handling (line ++ [b]) request } : Conn) = c'
    at hserve
  have hself : (w.ipc.conns.set k c')[k]? = some c' :=
    List.getElem?_set_self (List.getElem?_eq_some_iff.mp h.served).1
  have hwaiting : waiting { w.ipc with log := log', conns := w.ipc.conns.set k c' } k =
      some (line ++ [b], request) := by
    rw [waiting_eq_some]
    exact ⟨c', hself, by rw [← hc]⟩
  have hstep : Step pf w (.server k .receive) { w.startHandler k (line ++ [b]) request with
      ipc := { w.ipc with log := log', conns := w.ipc.conns.set k c' } } := by
    simp only [Step, World.next, System.next, h.served, hserve, World.serve, hwaiting]
  exact ⟨_, (Goes.refl w).step hstep ⟨rfl, rfl⟩, ⟨h.mu, h.conn, h.reader, hself, h.call⟩,
    fun _ _ => rfl, rfl, rfl, rfl⟩

/-! ## The handler -/

/-- The handler at the end of the tasks is left alone until it answers. -/
theorem goes_of_alone {ts : List Task} {x y : Shared × Pc} {request : Request} {ls : List Unit}
    (hrun : Run (Cryptod.Alone pf.crate ts.length request) x ls y)
    (hdaemon : w.daemon = ⟨x.1, ts ++ [⟨request, x.2⟩]⟩) :
    Goes pf w { w with daemon := ⟨y.1, ts ++ [⟨request, y.2⟩]⟩ } := by
  induction hrun with
  | nil =>
    rw [← hdaemon]
    exact .refl w
  | @snoc ls y z l run last ih =>
    obtain ⟨elapsed, hlast⟩ := last
    have hnext : Pool.next (Cryptod.daemon pf.crate) ⟨y.1, ts ++ [⟨request, y.2⟩]⟩
        (.run ts.length elapsed) = some ⟨z.1, ts ++ [⟨request, z.2⟩]⟩ := step_last hlast
    have hstep : Step pf { w with daemon := ⟨y.1, ts ++ [⟨request, y.2⟩]⟩ }
        (.task ts.length elapsed) { w with daemon := ⟨z.1, ts ++ [⟨request, z.2⟩]⟩ } := by
      simp only [Step, World.next, hnext, Option.map_some]
    exact ih.step hstep ⟨rfl, rfl⟩

/-! ## The answer -/

theorem At.send {b : Tagged} {rest : List Tagged} (h : At i k req pc c buf w) (hup : c.up = true)
    (hserver : c.server = .writing (b :: rest)) :
    Reaches pf i k req pc { c with
      toClient := c.toClient ++ [b]
      server := if rest = [] then .reading [] else .writing rest } buf w := by
  have hserve : serveConnection pf.serde w.ipc.log c .send = some (w.ipc.log, { c with
      toClient := c.toClient ++ [b]
      server := if rest = [] then .reading [] else .writing rest }) := by
    simp only [serveConnection, hserver, hup, if_true]
  exact h.serve hserve (by simp) (by simp) rfl

theorem At.send_all {bytes : List Tagged} (h : At i k req pc c buf w) (hup : c.up = true)
    (hserver : c.server = .writing bytes) (hne : bytes ≠ []) :
    Reaches pf i k req pc { c with toClient := c.toClient ++ bytes, server := .reading [] } buf
      w := by
  induction bytes generalizing w c with
  | nil => exact absurd rfl hne
  | cons b rest ih =>
    refine (h.send hup hserver).bind fun w' hat => ?_
    by_cases hrest : rest = []
    · subst hrest
      exact hat.reaches
    · rw [if_neg hrest] at hat
      have hmore := ih hat hup rfl hrest
      rw [List.append_assoc] at hmore
      exact hmore

theorem At.fill {b : Tagged} {rest : List Tagged} (h : At i k req .reading c buf w)
    (hto : c.toClient = b :: rest) :
    Reaches pf i k req .reading { c with toClient := rest } (buf ++ [b]) w := by
  have hstep : Step pf w (.client i .fill) { w with ipc := { w.ipc with
      conns := w.ipc.conns.set k { c with toClient := rest }
      reader := some { conn := k, buf := buf ++ [b] } } } := by
    simp only [Step, World.next, System.next, h.call, Client.callStep, h.reader, h.served, hto,
      Option.map_some]
  exact ⟨_, (Goes.refl w).step hstep ⟨rfl, rfl⟩, ⟨h.mu, h.conn, rfl,
    List.getElem?_set_self (List.getElem?_eq_some_iff.mp h.served).1, h.call⟩,
    ⟨fun _ _ => rfl, rfl, rfl, rfl⟩⟩

theorem At.fill_all {bytes : List Tagged} (h : At i k req .reading c buf w)
    (hto : c.toClient = bytes) :
    Reaches pf i k req .reading { c with toClient := [] } (buf ++ bytes) w := by
  induction bytes generalizing w c buf with
  | nil =>
    rw [List.append_nil]
    have hsame : ({ c with toClient := [] } : Conn) = c := by rw [← hto]
    rw [hsame]
    exact h.reaches
  | cons b rest ih =>
    refine (h.fill hto).bind fun w' hat => ?_
    have hmore := ih hat rfl
    rw [List.append_assoc] at hmore
    exact hmore

/-! ## A call -/

/-- No call is under way, and there is no connection or one on which nothing is. -/
def Clear (ipc : System) : Prop :=
  ipc.mu = none ∧
    (ipc.conn = none ∨ ∃ k, ipc.conn = some k ∧ ipc.reader = some ⟨k, []⟩ ∧
      ipc.conns[k]? = some Conn.accepted)

/-- A call that has the mutex goes on to write its line. -/
theorem reaches_writing (hclear : Clear w.ipc)
    (hcall : w.ipc.calls[i]? = some ⟨.request req, .waiting⟩) :
    ∃ k, Reaches pf i k req (.writing (pf.go.requestLine req)) Conn.accepted [] w := by
  obtain ⟨hmu, hconn⟩ := hclear
  have hlt := (List.getElem?_eq_some_iff.mp hcall).1
  have hlock : Step pf w (.client i .lock) { w with
      ipc := { w.ipc.goto i ⟨.request req, .waiting⟩ .locked with mu := some i } } := by
    simp only [Step, World.next, System.next, hcall, Client.callStep, hmu, Option.map_some]
  generalize hlocked : ({ w with
      ipc := { w.ipc.goto i ⟨.request req, .waiting⟩ .locked with mu := some i } } : World) = u
    at hlock
  have hu : u.ipc.calls[i]? = some ⟨.request req, .locked⟩ := by
    rw [← hlocked]
    exact List.getElem?_set_self hlt
  have hult : i < u.ipc.calls.length := (List.getElem?_eq_some_iff.mp hu).1
  have hbeside : Beside i w u := by
    rw [← hlocked]
    exact ⟨fun j hj => List.getElem?_set_ne hj.symm, List.length_set .., rfl, rfl⟩
  have humu : u.ipc.mu = some i := by rw [← hlocked]
  have hgoes := (Goes.refl w).step hlock ⟨rfl, rfl⟩
  obtain hnone | ⟨k, hsome, hreader, hserved⟩ := hconn
  · -- the call makes a connection
    have huconn : u.ipc.conn = none := by
      rw [← hlocked]
      exact hnone
    have henter : Step pf u (.client i (.enter (.ok ()))) { u with
        ipc := u.ipc.dialed.goto i ⟨.request req, .locked⟩
          (.writing (pf.go.requestLine req)) } := by
      simp only [Step, World.next, System.next, hu, Client.callStep, Client.connect, huconn,
        Option.map_some]
    refine ⟨u.ipc.conns.length, _, hgoes.step henter ⟨rfl, rfl⟩, ⟨humu, rfl, rfl, ?_, ?_⟩,
      hbeside.trans ⟨fun j hj => List.getElem?_set_ne hj.symm, List.length_set .., rfl, rfl⟩⟩
    · show (u.ipc.conns ++ [Conn.accepted])[u.ipc.conns.length]? = _
      simp
    · exact List.getElem?_set_self hult
  · have huconn : u.ipc.conn = some k := by
      rw [← hlocked]
      exact hsome
    have henter : Step pf u (.client i (.enter (.ok ()))) { u with
        ipc := u.ipc.goto i ⟨.request req, .locked⟩ (.writing (pf.go.requestLine req)) } := by
      simp only [Step, World.next, System.next, hu, Client.callStep, Client.connect, huconn,
        Option.map_some]
    refine ⟨k, _, hgoes.step henter ⟨rfl, rfl⟩, ⟨humu, huconn, ?_, ?_, ?_⟩,
      hbeside.trans ⟨fun j hj => List.getElem?_set_ne hj.symm, List.length_set .., rfl, rfl⟩⟩
    · show u.ipc.reader = _
      rw [← hlocked]
      exact hreader
    · show u.ipc.conns[k]? = _
      rw [← hlocked]
      exact hserved
    · exact List.getElem?_set_self hult

/-- The line of an answer has come back: the call returns what it says. -/
theorem At.return_ {line : List Tagged} (h : At i k req .reading Conn.accepted line w)
    (hline : IsLine isNewline line) :
    ∃ w', Goes pf w w' ∧ Clear w'.ipc ∧ Beside i w w' ∧ w'.ipc.calls[i]? =
      some ⟨.request req, .done line (Client.reply pf.go req (bytesOf line))⟩ := by
  have hstep : Step pf w (.client i .readLine) { w with
      ipc := ({ w.ipc with reader := some { conn := k, buf := [] } } : System).ret i
        ⟨.request req, .reading⟩ line (Client.reply pf.go req (bytesOf line)) } := by
    simp only [Step, World.next, System.next, h.call, Client.callStep, h.reader,
      takeLine_of_isLine hline, Option.map_some]
  refine ⟨_, (Goes.refl w).step hstep ⟨rfl, rfl⟩, ⟨rfl, .inr ⟨k, h.conn, rfl, h.served⟩⟩,
    ⟨fun j hj => List.getElem?_set_ne hj.symm, List.length_set .., rfl, rfl⟩, ?_⟩
  exact List.getElem?_set_self (List.getElem?_eq_some_iff.mp h.call).1

/-- The request of a call goes to the daemon, which starts a handler for it. -/
theorem goes_request {request : Request} (hclear : Clear w.ipc)
    (hcall : w.ipc.calls[i]? = some ⟨.request req, .waiting⟩)
    (hread : decodeLine (requestLine req) = some request) :
    ∃ k w' line, Goes pf w w' ∧
      At i k req .reading { Conn.accepted with server := .handling line request } [] w' ∧
      (∀ j, j ≠ i → w'.ipc.calls[j]? = w.ipc.calls[j]?) ∧
      w'.ipc.calls.length = w.ipc.calls.length ∧
      w'.daemon = ⟨w.daemon.shared, w.daemon.tasks ++ [⟨request, .received⟩]⟩ ∧
      w'.handlings = ⟨k, w.daemon.tasks.length, line⟩ :: w.handlings := by
  obtain ⟨k, hwriting⟩ :
      ∃ k, Reaches pf i k req (.writing (requestLine req)) Conn.accepted [] w :=
    reaches_writing hclear hcall
  have hne : requestLine req ≠ [] := by simp [Ipc.requestLine]
  -- all bytes of the line but its newline
  have hreceived : Reaches pf i k req .reading
      { Conn.accepted with
        toServer := [(i, newline)]
        server := .reading (tagged i (marshal req)) } [] w := by
    refine hwriting.bind fun u hat => (hat.write_all rfl hne).bind fun v hat => ?_
    have hto : Conn.accepted.toServer ++ tagged i (requestLine req) =
        tagged i (marshal req) ++ [(i, newline)] := by
      simp [Conn.accepted, Ipc.requestLine, tagged]
    rw [hto] at hat
    refine hat.receive_all rfl rfl fun b hb => ?_
    obtain ⟨c, hc, rfl⟩ := List.mem_map.mp hb
    exact beq_eq_false_iff_ne.mpr fun hnewline => newline_not_mem_marshal req (hnewline ▸ hc)
  obtain ⟨u, hgoes, hat, hbeside⟩ := hreceived
  have hdecode : pf.serde.decode (tagged i (marshal req) ++ [(i, newline)]) = some request := by
    have htagged : tagged i (marshal req) ++ [(i, newline)] = tagged i (requestLine req) := by
      simp [Ipc.requestLine, tagged]
    rw [htagged]
    exact (decode_requestLine pf i req).trans hread
  obtain ⟨v, hgoes', hat', hcalls, hlength, hdaemon, hhandlings⟩ :=
    hat.take_up rfl rfl rfl hdecode
  rw [hbeside.daemon] at hdaemon hhandlings
  rw [hbeside.handlings] at hhandlings
  exact ⟨k, v, _, hgoes.trans hgoes', hat', fun j hj => (hcalls j hj).trans (hbeside.calls j hj),
    hlength.trans hbeside.length, hdaemon, hhandlings⟩

/-- The handler that connection `k` waits for has answered, and its answer comes back. -/
theorem goes_answer {line : List Tagged} {request : Request} {response : Response}
    (h : At i k req .reading { Conn.accepted with server := .handling line request } [] w)
    (hreturned : w.returned k response = true) :
    ∃ w' line', Goes pf w w' ∧ Clear w'.ipc ∧ Beside i w w' ∧ w'.ipc.calls[i]? =
      some ⟨.request req, .done line'
        (Client.reply pf.go req (pf.serde.responseLine response))⟩ := by
  have hserve : serveConnection pf.serde w.ipc.log
      { Conn.accepted with server := .handling line request } (.respond response) =
      some (writeResponse pf.serde w.ipc.log
        { Conn.accepted with server := .handling line request } line response) := rfl
  have hreturned' (r : Response) (hr : ServerAct.respond response = .respond r) :
      w.returned k r = true := by
    cases hr
    exact hreturned
  have hwriting := h.serve hserve (by simp) hreturned' rfl
  generalize w.ipc.log.answered.length = n at hwriting
  have hne : tagged n (pf.serde.responseLine response) ≠ [] := by
    simp [tagged, Serde.responseLine]
  have hreading : Reaches pf i k req .reading Conn.accepted
      (tagged n (pf.serde.responseLine response)) w := by
    refine hwriting.bind fun u hat => (hat.send_all rfl rfl hne).bind fun v hat => ?_
    exact hat.fill_all rfl
  obtain ⟨u, hgoes, hat, hbeside⟩ := hreading
  obtain ⟨v, hgoes', hclear, hbeside', hdone⟩ :=
    hat.return_ (isLine_tagged n (pf.serde.newline_not_mem response))
  have hbytes : bytesOf (tagged n (pf.serde.responseLine response)) =
      pf.serde.responseLine response := bytesOf_tagged n _
  rw [hbytes] at hdone
  exact ⟨v, _, hgoes.trans hgoes', hclear, hbeside.trans hbeside', hdone⟩

/-- A call whose request the server can read comes back with the answer of its handler. -/
theorem goes_call {s s' : CryptodState} {ts : List Task} {x : Cryptod.Exchange}
    (hclear : Clear w.ipc) (hcall : w.ipc.calls[i]? = some ⟨.request req, .waiting⟩)
    (hdaemon : w.daemon = ⟨⟨s, none⟩, ts⟩) (hread : decodeLine (requestLine req) = some x.request)
    (hhandles : Handles pf.crate s x s') :
    ∃ w' line, Goes pf.decoding w w' ∧ Clear w'.ipc ∧
      w'.daemon = ⟨⟨s', none⟩, ts ++ [x.task]⟩ ∧
      (∀ j, j ≠ i → w'.ipc.calls[j]? = w.ipc.calls[j]?) ∧
      w'.ipc.calls.length = w.ipc.calls.length ∧
      w'.ipc.calls[i]? = some ⟨.request req, .done line (delivered req x.response)⟩ := by
  obtain ⟨k, u, line, hgoes, hat, hcalls, hlength, hstarted, hhandlings⟩ :
      ∃ k w' line, Goes pf.decoding w w' ∧
        At i k req .reading { Conn.accepted with server := .handling line x.request } [] w' ∧
        (∀ j, j ≠ i → w'.ipc.calls[j]? = w.ipc.calls[j]?) ∧
        w'.ipc.calls.length = w.ipc.calls.length ∧
        w'.daemon = ⟨w.daemon.shared, w.daemon.tasks ++ [⟨x.request, .received⟩]⟩ ∧
        w'.handlings = ⟨k, w.daemon.tasks.length, line⟩ :: w.handlings :=
    goes_request hclear hcall hread
  rw [hdaemon] at hstarted hhandlings
  -- the handler is left alone
  obtain ⟨ls, halone⟩ : ∃ ls, Run (Cryptod.Alone pf.decoding.crate ts.length x.request)
      (⟨s, none⟩, .received) ls (⟨s', none⟩, .done x.response) :=
    alone_of_handle ts.length hhandles
  have hgoes' : Goes pf.decoding u
      { u with daemon := ⟨⟨s', none⟩, ts ++ [⟨x.request, .done x.response⟩]⟩ } :=
    goes_of_alone halone hstarted
  generalize hv : ({ u with
      daemon := ⟨⟨s', none⟩, ts ++ [⟨x.request, .done x.response⟩]⟩ } : World) = v at hgoes'
  have hatv : At i k req .reading { Conn.accepted with server := .handling line x.request } []
      v := by
    rw [← hv]
    exact ⟨hat.mu, hat.conn, hat.reader, hat.served, hat.call⟩
  have hreturned : v.returned k x.response = true := by
    have hhandler : v.handler k = some ⟨k, ts.length, line⟩ := by
      rw [← hv]
      show u.handlings.find? _ = _
      rw [hhandlings]
      exact List.find?_cons_of_pos (by simp)
    simp only [World.returned, hhandler]
    rw [← hv]
    simp
  obtain ⟨z, line', hgoes'', hclear', hbeside, hdone⟩ := goes_answer hatv hreturned
  have hreply : Client.reply pf.decoding.go req (pf.decoding.serde.responseLine x.response) =
      delivered req x.response := reply_responseLine req x.response
  rw [hreply] at hdone
  have hvcalls : v.ipc.calls = u.ipc.calls := by rw [← hv]
  refine ⟨z, line', (hgoes.trans hgoes').trans hgoes'', hclear', ?_, fun j hj => ?_, ?_, hdone⟩
  · rw [hbeside.daemon, ← hv]
    rfl
  · rw [hbeside.calls j hj, hvcalls, hcalls j hj]
  · rw [hbeside.length, hvcalls, hlength]

/-! ## A program -/

/-- A handler answers in kind. -/
theorem kind_of_handles {crate : Gcm.Crate} {s t : CryptodState} {x : Cryptod.Exchange}
    (h : Handles crate s x t) : Kind x.request x.response := by
  obtain ⟨req, elapsed, response⟩ := x
  change (handle crate elapsed req).run s = .ok response t at h
  cases req with
  | getStatus | setPolicy p =>
    cases h
    trivial
  | rotateKey p =>
    obtain ⟨c, -, hrun⟩ | ⟨code, message, hrun⟩ := handle_rotateKey crate elapsed p s
    all_goals
      rw [hrun] at h
      cases h
      trivial
  | encrypt p =>
    obtain ⟨key, hn, frame, -, -, hrun⟩ | ⟨code, message, u, -, hrun⟩ :=
      handle_encrypt crate elapsed p s
    all_goals
      rw [hrun] at h
      cases h
      trivial
  | decrypt p =>
    obtain ⟨key, plaintext, -, -, hrun⟩ | ⟨code, message, u, -, hrun⟩ :=
      handle_decrypt crate elapsed p s
    all_goals
      rw [hrun] at h
      cases h
      trivial

/-- Between two calls of a program, with the daemon in `s`. -/
structure Idle (s : CryptodState) (w : World) : Prop where
  clear : Clear w.ipc
  shared : w.daemon.shared = ⟨s, none⟩
  unfailing : Unfailing w.ipc

section

variable {α : Type} {script : Program α} {p : Process α} {s s' : CryptodState}

theorem idle_new (s : CryptodState) : Idle s (new s) where
  clear := ⟨rfl, .inl rfl⟩
  shared := rfl
  unfailing i call line e ht := by cases ht

/-- What a handler makes of a request it makes of one the program asks with. -/
theorem Idle.call {next : Returned → Program α} {r : Returned} (h : Idle s p.world)
    (hpending : p.pending = none) (hscript : p.script = .ask req next)
    (hserves : Serves pf.crate s req r s') (hread : Readable req) :
    ∃ acts p', Run (Process.Step pf.decoding) p acts p' ∧
      (∀ a, .world a ∈ acts → a.foreign = false) ∧ p'.script = next r ∧ p'.pending = none ∧
      Idle s' p'.world := by
  obtain ⟨w, script, pending⟩ := p
  cases hpending
  cases hscript
  cases hserves with
  | refused hunread => exact absurd hunread hread
  | @answered x s' hhandles hdecode =>
    -- the call is the last one there is
    let started : World :=
      { w with ipc := { w.ipc with calls := w.ipc.calls ++ [⟨.request req, .waiting⟩] } }
    have hstart : Process.Step pf.decoding ⟨w, .ask req next, none⟩ .call
        ⟨started, .ask req next, some w.ipc.calls.length⟩ := rfl
    have hwaiting : started.ipc.calls[w.ipc.calls.length]? = some ⟨.request req, .waiting⟩ := by
      simp [started]
    have hdaemon : started.daemon = ⟨⟨s, none⟩, w.daemon.tasks⟩ := by
      show w.daemon = _
      rw [← h.shared]
    obtain ⟨v, line, ⟨acts, hrun, hacts⟩, hclear, hdaemon', hothers, hlength, hdone⟩ :=
      goes_call (w := started) h.clear hwaiting hdaemon hdecode hhandles
    have hwaits := run_of_run_world hrun (fun a ha => (hacts a ha).1) (.ask req next)
      (some w.ipc.calls.length)
    have hback : Process.Step pf.decoding ⟨v, .ask req next, some w.ipc.calls.length⟩ .back
        ⟨v, next (delivered req x.response), none⟩ := by
      simp [Process.Step, Process.next, hdone]
    refine ⟨_, _, Run.cons hstart (hwaits.snoc hback), fun a ha => ?_, rfl, rfl, hclear, ?_, ?_⟩
    · simp only [List.mem_cons, List.mem_append, List.mem_map, reduceCtorEq, List.not_mem_nil,
        or_false, false_or] at ha
      obtain ⟨b, hb, heq⟩ := ha
      cases heq
      exact (hacts _ hb).2
    · show v.daemon.shared = _
      rw [hdaemon']
    · intro j call line' e ht
      by_cases hj : j = w.ipc.calls.length
      · rw [hj, hdone] at ht
        injection ht with ht
        injection ht with hcall hpc
        injection hpc with hline hfailed
        have hserver :=
          fromServer_delivered (means_of_decodeLine hdecode) (kind_of_handles hhandles)
        rw [hfailed] at hserver
        exact hserver
      · have hjlt : j < v.ipc.calls.length := (List.getElem?_eq_some_iff.mp ht).1
        rw [hothers j hj] at ht
        rw [hlength] at hjlt
        have hlast : started.ipc.calls.length = w.ipc.calls.length + 1 := by simp [started]
        have hold : started.ipc.calls[j]? = w.ipc.calls[j]? :=
          List.getElem?_append_left (by omega)
        rw [hold] at ht
        exact h.unfailing j call line' e ht

/-- What a program does against the handlers, with requests that can be read, it does over the
socket: some run of the process, in which nothing fails and no one else takes part, brings it there.
-/
theorem exists_process (pf : Platform) {s₀ : CryptodState} {log : List (ClientRequest × Returned)}
    {script' : Program α}
    (hrun : Run (Script.Asks (Serves pf.crate)) (script, s₀) log (script', s))
    (hread : ∀ x ∈ log, Readable x.1) :
    ∃ acts p, Run (Process.Step pf.decoding) (Process.new s₀ script) acts p ∧
      (∀ a, .world a ∈ acts → a.foreign = false) ∧ p.script = script' ∧ p.pending = none ∧
      Idle s p.world := by
  generalize hend : (script', s) = end' at hrun
  induction hrun generalizing script' s with
  | nil =>
    cases hend
    exact ⟨[], _, .nil, fun a ha => absurd ha List.not_mem_nil, rfl, rfl, idle_new s₀⟩
  | @snoc log mid end' x run last ih =>
    cases hend
    obtain ⟨acts, p, hprocess, hown, hscript, hpending, hidle⟩ :=
      ih (fun y hy => hread y (List.mem_append_left _ hy)) rfl
    obtain ⟨next, hask, hserves, rfl⟩ := last
    have hreadable := hread x (List.mem_append_right _ List.mem_cons_self)
    obtain ⟨acts', p', hprocess', hown', hscript', hpending', hidle'⟩ :=
      hidle.call hpending (hscript.trans hask) hserves hreadable
    refine ⟨acts ++ acts', p', hprocess.append hprocess', fun a ha => ?_, hscript', hpending',
      hidle'⟩
    exact (List.mem_append.mp ha).elim (hown a) (hown' a)

/-- What a program comes to over the socket.  When no other client makes requests, no task of the
server dies and no call fails, a program whose requests can be read stops with the results, and
leaves the daemon in the states, that it can stop with and leave when the handlers are called one at
a time: with none besides, and with every one of them. -/
theorem program_realised (pf : Platform) (s₀ s : CryptodState) (script : Program α) (result : α)
    (hread : script.Ensures (Serves pf.crate) Readable (fun _ _ => True) s₀) :
    (∃ acts p, Run (Process.Step pf.decoding) (Process.new s₀ script) acts p ∧
      (∀ a, .world a ∈ acts → a.foreign = false) ∧ Unfailing p.world.ipc ∧
      p.script = .stop result ∧ p.world.daemon.shared.state = s) ↔
    ∃ log, Run (Script.Asks (Serves pf.crate)) (script, s₀) log (.stop result, s) := by
  constructor
  · rintro ⟨acts, p, hrun, hown, hunfailing, hstopped, rfl⟩
    obtain ⟨log, s, hlog, hbetween⟩ := exists_between hrun hown hunfailing
    rw [(hbetween.stopped hstopped).2.state]
    rw [hstopped] at hlog
    exact ⟨log, hlog⟩
  · rintro ⟨log, hrun⟩
    obtain ⟨acts, p, hprocess, hown, hscript, -, hidle⟩ :=
      exists_process pf hrun (hread.run hrun).2
    refine ⟨acts, p, hprocess, hown, hidle.unfailing, hscript, ?_⟩
    rw [hidle.shared]

namespace Kat

theorem decodeLine_sealCall :
    decodeLine (requestLine sealCall) = some (.encrypt Cryptod.Kat.encryptText) := by
  show decodeLine (requestLine (.encrypt _ _ _)) = _
  rw [decodeLine_encrypt]
  rfl

theorem sealScript_ensures : sealScript.Ensures (Serves platform.crate) Readable
    (fun _ _ => True) Cryptod.Kat.rotated := by
  refine Script.ensures_ask ?_ fun _ _ _ => trivial
  show decodeLine (requestLine sealCall) ≠ none
  rw [decodeLine_sealCall]
  exact Option.some_ne_none _

/-- The exchange the call comes to. -/
theorem serves_sealCall : Serves platform.crate Cryptod.Kat.rotated sealCall
    (.bytes Gcm.Kat.frame256) Cryptod.Kat.rotated.countSealed :=
  Serves.answered (x := ⟨.encrypt Cryptod.Kat.encryptText, 0, .ciphertext Gcm.Kat.frame256⟩) rfl
    decodeLine_sealCall

end Kat

/-- Sealing the text over the socket comes to the published frame. -/
theorem program_realised_sealed :
    ∃ acts p, Run (Process.Step Kat.platform.decoding)
        (Process.new Cryptod.Kat.rotated Kat.sealScript) acts p ∧
      (∀ a, .world a ∈ acts → a.foreign = false) ∧ Unfailing p.world.ipc ∧
      p.script = .stop (.bytes Gcm.Kat.frame256) ∧
      p.world.daemon.shared.state = Cryptod.Kat.rotated.countSealed :=
  (program_realised Kat.platform Cryptod.Kat.rotated Cryptod.Kat.rotated.countSealed
    Kat.sealScript (.bytes Gcm.Kat.frame256) Kat.sealScript_ensures).mpr
    ⟨[(Kat.sealCall, .bytes Gcm.Kat.frame256)],
      Run.single (Script.asks_ask Kat.serves_sealCall)⟩

end

end Node

end SmartSfp
