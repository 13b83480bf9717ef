import SmartSfp.Ipc.Phase
import SmartSfp.Ipc.Reply
import SmartSfp.Lib.Run
import Mathlib.Data.Prod.Lex

/-!
# Session — a client that writes lines, and the answers it gets

The client has some bytes to write on one connection and writes them in order, at any pace; the
server reads, handles and answers.  When the connection works, every line gets one answer, provided
that every line is text: one that is not UTF-8 is an error of `read_line`, and ends the session.
-/

namespace SmartSfp

namespace Ipc

open Lib

/-- One connection, with what the client has still to write. -/
structure Session where
  unsent : List Tagged
  log : Log
  conn : Conn
  deriving DecidableEq

inductive SessionAct where
  /-- The client writes its next byte. -/
  | write
  /-- The client closes its end, having written everything. -/
  | hangUp
  | server (a : ServerAct)
  deriving DecidableEq

/-- Neither end closes the connection and nothing fails on it. -/
def SessionAct.Works : SessionAct → Prop
  | .write | .server .receive | .server (.respond _) | .server .send => True
  | _ => False

namespace Session

/-- A client that connects in order to write `bytes`. -/
def connect (bytes : Octets) : Session := ⟨tagged 0 bytes, ⟨[], []⟩, .accepted⟩

variable (serde : Serde)

def act (s : Session) : SessionAct → Option Session
  | .write =>
    match s.unsent with
    | [] => none
    | b :: rest => some { s with unsent := rest, conn := s.conn.push b }
  | .hangUp => if s.unsent = [] then some { s with conn := s.conn.hangUp } else none
  | .server a =>
    (serveConnection serde s.log s.conn a).map fun r => { s with log := r.1, conn := r.2 }

def Step (s : Session) (a : SessionAct) (t : Session) : Prop := s.act serde a = some t

/-- The steps of a connection that works. -/
def WorkingStep : Session → SessionAct → Session → Prop := When (fun _ a => a.Works) (Step serde)

/-- The server waits for a line and has answered every one it was given. -/
def Waiting (s : Session) : Prop :=
  s.unsent = [] ∧ s.conn.toServer = [] ∧ s.conn.server = .reading []

end Session

/-- The request in a line, if it holds one. -/
def Serde.requestOfLine (serde : Serde) (line : Octets) : Option Request :=
  (serde.fromUtf8 line).bind fun text => (serde.fromStr text).toOption

/-- The line of each of the byte strings. -/
def terminated (lines : List Octets) : List Octets := lines.map (· ++ [newline])

variable (serde : Serde)

/-- What the server has to show for `lines`: one response each, in order, and the handler started
for those that hold a request and no others. -/
structure Answered (lines : List Octets) (s : Session) : Prop where
  answered : s.log.answered.map (fun e => bytesOf e.line) = lines
  written : bytesOf s.conn.toClient =
    (s.log.answered.map fun e => serde.responseLine e.response).flatten
  oneLine : ∀ e ∈ s.log.answered, newline ∉ serde.toText e.response
  refused : ∀ e ∈ s.log.answered, serde.requestOfLine (bytesOf e.line) = none →
    ∃ message, e.response = .error 400 message
  started : s.log.started.map bytesOf = lines.filter fun l => (serde.requestOfLine l).isSome

/-- However client and server take turns on a connection that works, they come to an end, and there
the server has answered every line and waits for more. -/
structure AnswersEach (lines : List Octets) : Prop where
  ends : Terminates (Session.WorkingStep serde)
  answered : ∀ acts s,
    Run (Session.WorkingStep serde) (.connect (terminated lines).flatten) acts s →
    Final (Session.WorkingStep serde) s → s.Waiting ∧ Answered serde (terminated lines) s

/-! ## What each step does -/

variable {serde} {log log' : Log} {c c' : Conn} {line : List Tagged}

/-- A line taken up is no text, no request, or a request for the handler. -/
theorem takeUp_cases (h : takeUp serde log c line = (log', c')) :
    (serde.fromUtf8 (bytesOf line) = none ∧ log' = log ∧ c' = c.finish) ∨
    (∃ text message, serde.fromUtf8 (bytesOf line) = some text ∧
      serde.requestOfLine (bytesOf line) = none ∧
      (log', c') = writeResponse serde log c line (.error 400 message)) ∨
    (∃ text request, serde.fromUtf8 (bytesOf line) = some text ∧
      serde.requestOfLine (bytesOf line) = some request ∧
      log' = { log with started := log.started ++ [line] } ∧
      c' = { c with server := .handling line request }) := by
  unfold takeUp at h
  split at h
  · rename_i htext
    cases h
    exact .inl ⟨htext, rfl, rfl⟩
  · rename_i text htext
    split at h
    · rename_i e hrequest
      refine .inr (.inl ⟨text, _, htext, ?_, h.symm⟩)
      simp [Serde.requestOfLine, htext, hrequest, Except.toOption]
    · rename_i request hrequest
      cases h
      refine .inr (.inr ⟨text, request, htext, ?_, rfl, rfl⟩)
      simp [Serde.requestOfLine, htext, hrequest, Except.toOption]

/-- While the connection is up a read gets a byte, and the last byte of a line has it taken up. -/
theorem receive_cases (hup : c.up = true)
    (h : serveConnection serde log c .receive = some (log', c')) :
    ∃ buf b rest, c.server = .reading buf ∧ c.toServer = b :: rest ∧
      ((isNewline b = false ∧ log' = log ∧
        c' = { c with toServer := rest, server := .reading (buf ++ [b]) }) ∨
      (isNewline b = true ∧
        takeUp serde log { c with toServer := rest } (buf ++ [b]) = (log', c'))) := by
  simp only [serveConnection] at h
  split at h
  · rename_i buf b rest hserver hto
    refine ⟨buf, b, rest, hserver, hto, ?_⟩
    split at h
    · rename_i hb
      exact .inr ⟨hb, Option.some.inj h⟩
    · rename_i hb
      cases h
      exact .inl ⟨Bool.eq_false_iff.mpr hb, rfl, rfl⟩
  · rw [if_pos hup] at h
    cases h
  · cases h

theorem respond_cases {response : Response}
    (h : serveConnection serde log c (.respond response) = some (log', c')) :
    ∃ line request, c.server = .handling line request ∧
      (log', c') = writeResponse serde log c line response := by
  simp only [serveConnection] at h
  split at h
  · rename_i line request hserver
    exact ⟨line, request, hserver, (Option.some.inj h).symm⟩
  · cases h

theorem send_cases (h : serveConnection serde log c .send = some (log', c')) :
    ∃ b rest, c.server = .writing (b :: rest) ∧ log' = log ∧
      c' = { c with
        toClient := if c.up then c.toClient ++ [b] else c.toClient
        server := if rest = [] then .reading [] else .writing rest } := by
  simp only [serveConnection] at h
  split at h
  · rename_i b rest hserver
    cases h
    exact ⟨b, rest, hserver, rfl, rfl⟩
  · cases h

/-! ## Every run of a working connection ends -/

/-- How far the server is from having nothing to do, when nothing more arrives. -/
def ServerPc.phase : ServerPc → Nat
  | .ended => 0
  | .reading [] => 1
  | .writing _ => 2
  | .handling _ _ => 3
  | .reading (_ :: _) => 4

/-- The bytes of the response still to write. -/
def ServerPc.toWrite : ServerPc → Nat
  | .writing rest => rest.length
  | _ => 0

namespace Session

def rank (s : Session) : Nat × Nat × Nat × Nat :=
  (s.unsent.length, s.conn.toServer.length, s.conn.server.phase, s.conn.server.toWrite)

/-- The order of ranks: first what is still to arrive, then what is still to do. -/
def RankLt : Nat × Nat × Nat × Nat → Nat × Nat × Nat × Nat → Prop :=
  Prod.Lex (· < ·) (Prod.Lex (· < ·) (Prod.Lex (· < ·) (· < ·)))

theorem rankLt_wf : WellFounded RankLt :=
  wellFounded_lt.prod_lex (wellFounded_lt.prod_lex (wellFounded_lt.prod_lex wellFounded_lt))

theorem toServer_takeUp (h : takeUp serde log c line = (log', c')) :
    c'.toServer.length ≤ c.toServer.length ∧ c'.server.phase < 4 := by
  obtain ⟨-, -, rfl⟩ | ⟨text, message, -, -, h⟩ | ⟨text, request, -, -, -, rfl⟩ := takeUp_cases h
  · exact ⟨Nat.zero_le _, by simp [Conn.finish, ServerPc.phase]⟩
  · cases h
    exact ⟨Nat.le_refl _, by simp [ServerPc.phase]⟩
  · exact ⟨Nat.le_refl _, by simp [ServerPc.phase]⟩

theorem exists_serve {s t : Session} {a : ServerAct} (h : Step serde s (.server a) t) :
    ∃ log' c', serveConnection serde s.log s.conn a = some (log', c') ∧
      t = ⟨s.unsent, log', c'⟩ := by
  obtain ⟨⟨log', c'⟩, hserve, rfl⟩ := Option.map_eq_some_iff.mp h
  exact ⟨log', c', hserve, rfl⟩

/-- A step that takes a byte out of the stream. -/
theorem rankLt_of_toServer (unsent : List Tagged) (hto : c'.toServer.length < c.toServer.length) :
    RankLt (rank ⟨unsent, log', c'⟩) (rank ⟨unsent, log, c⟩) :=
  Prod.Lex.right _ (Prod.Lex.left _ _ hto)

/-- A step that leaves the bytes in flight alone lowers the phase, or writes a byte. -/
theorem rankLt_of_phase (unsent : List Tagged) (hto : c'.toServer = c.toServer)
    (hphase : c'.server.phase < c.server.phase ∨
      c'.server.phase = c.server.phase ∧ c'.server.toWrite < c.server.toWrite) :
    RankLt (rank ⟨unsent, log', c'⟩) (rank ⟨unsent, log, c⟩) := by
  simp only [RankLt, rank, hto]
  refine Prod.Lex.right _ (Prod.Lex.right _ ?_)
  rcases hphase with hlt | ⟨heq, hlt⟩
  · exact Prod.Lex.left _ _ hlt
  · rw [heq]
    exact Prod.Lex.right _ hlt

theorem rank_receive {s t : Session} (h : Step serde s (.server .receive) t) :
    RankLt t.rank s.rank := by
  obtain ⟨log', c', hserve, rfl⟩ := exists_serve h
  simp only [serveConnection] at hserve
  split at hserve
  · rename_i buf b rest hserver hto
    apply rankLt_of_toServer
    rw [hto]
    apply Nat.lt_succ_of_le
    split at hserve
    · exact (toServer_takeUp (Option.some.inj hserve)).1
    · cases hserve
      exact Nat.le_refl _
  · -- the end of the stream
    rename_i buf hserver hto
    split at hserve
    · cases hserve
    · split at hserve
      · rename_i hbuf
        cases hserve
        apply rankLt_of_phase _ hto.symm
        rw [hserver, hbuf]
        exact .inl Nat.zero_lt_one
      · rename_i hbuf
        obtain ⟨hle, hphase⟩ := toServer_takeUp (Option.some.inj hserve)
        rw [hto] at hle
        apply rankLt_of_phase
        · rw [hto]
          exact List.length_eq_zero_iff.mp (Nat.le_zero.mp hle)
        · rw [hserver]
          obtain ⟨b, rest, rfl⟩ := List.exists_cons_of_ne_nil hbuf
          exact .inl hphase
  · cases hserve

theorem rank_respond {s t : Session} {response : Response}
    (h : Step serde s (.server (.respond response)) t) : RankLt t.rank s.rank := by
  obtain ⟨log', c', hserve, rfl⟩ := exists_serve h
  obtain ⟨line, request, hserver, hwrite⟩ := respond_cases hserve
  cases hwrite
  apply rankLt_of_phase
  · rfl
  · rw [hserver]
    exact .inl (Nat.lt_succ_self _)

theorem rank_send {s t : Session} (h : Step serde s (.server .send) t) :
    RankLt t.rank s.rank := by
  obtain ⟨log', c', hserve, rfl⟩ := exists_serve h
  obtain ⟨b, rest, hserver, -, rfl⟩ := send_cases hserve
  apply rankLt_of_phase
  · rfl
  · rw [hserver]
    by_cases hrest : rest = []
    · simp [hrest, ServerPc.phase]
    · simp [hrest, ServerPc.phase, ServerPc.toWrite]

theorem terminates : Terminates (WorkingStep serde) := by
  apply Terminates.of_rank rankLt_wf rank
  intro s a t hstep
  obtain ⟨hworks, hstep⟩ := hstep
  cases a with
  | write =>
    simp only [Step, act] at hstep
    split at hstep
    · cases hstep
    · rename_i b rest hunsent
      cases hstep
      unfold RankLt rank
      rw [hunsent]
      exact Prod.Lex.left _ _ (Nat.lt_succ_self _)
  | hangUp => exact hworks.elim
  | server a =>
    cases a with
    | receive => exact rank_receive hstep
    | respond response => exact rank_respond hstep
    | send => exact rank_send hstep
    | fail => exact hworks.elim
    | cut m n => exact hworks.elim

end Session

/-! ## How far the server has come with the lines -/

/-- The lines that hold a request. -/
def Serde.withRequest (serde : Serde) (lines : List Octets) : List Octets :=
  lines.filter fun l => (serde.requestOfLine l).isSome

/-- What the server has to show for the lines it is done with: `out` is written or being written. -/
structure Tally (serde : Serde) (done started : List Octets) (log : Log) (out : List Tagged) :
    Prop where
  readable : ∀ l ∈ done, serde.fromUtf8 l ≠ none
  answered : log.answered.map (fun e => bytesOf e.line) = done
  written : bytesOf out = (log.answered.map fun e => serde.responseLine e.response).flatten
  refused : ∀ e ∈ log.answered, serde.requestOfLine (bytesOf e.line) = none →
    ∃ message, e.response = .error 400 message
  started : log.started.map bytesOf = started

variable {done started rest lines : List Octets} {out buf : List Tagged} {l : Octets}

theorem tally_nil : Tally serde [] [] ⟨[], []⟩ [] where
  readable _ hl := absurd hl List.not_mem_nil
  answered := rfl
  written := rfl
  refused _ he := absurd he List.not_mem_nil
  started := rfl

theorem bytesOf_append (p q : List Tagged) : bytesOf (p ++ q) = bytesOf p ++ bytesOf q :=
  List.map_append

/-- One more line answered. -/
theorem Tally.answer (h : Tally serde done started log out) (line : List Tagged)
    (response : Response) (hreadable : serde.fromUtf8 (bytesOf line) ≠ none)
    (hrefused : serde.requestOfLine (bytesOf line) = none →
      ∃ message, response = .error 400 message) :
    Tally serde (done ++ [bytesOf line]) started
      { log with answered := log.answered ++ [⟨line, response⟩] }
      (out ++ tagged log.answered.length (serde.responseLine response)) where
  readable l hl := by
    rcases List.mem_append.mp hl with hl | hl
    · exact h.readable l hl
    · rwa [List.mem_singleton.mp hl]
  answered := by
    simp only [List.map_append, h.answered, List.map_cons, List.map_nil]
  written := by
    simp only [bytesOf_append, bytesOf_tagged, h.written, List.map_append,
      List.map_cons, List.map_nil, List.flatten_append, List.flatten_singleton]
  refused e he := by
    rcases List.mem_append.mp he with he | he
    · exact h.refused e he
    · cases List.mem_singleton.mp he
      exact hrefused
  started := h.started

/-- One more line whose request is with the handler. -/
theorem Tally.start (h : Tally serde done started log out) (line : List Tagged) :
    Tally serde done (started ++ [bytesOf line]) { log with started := log.started ++ [line] }
      out where
  readable := h.readable
  answered := h.answered
  written := h.written
  refused := h.refused
  started := by
    simp only [List.map_append, h.started, List.map_cons, List.map_nil]

/-- Of the lines, the server is done with some and has the rest before it. -/
inductive Session.Progress (serde : Serde) (lines : List Octets) (s : Session) : Prop where
  | reading {done rest : List Octets} {buf : List Tagged} (hserver : s.conn.server = .reading buf)
      (hup : s.conn.up = true) (hlines : lines = done ++ rest)
      (hfree : ∀ b ∈ buf, isNewline b = false)
      (hbytes : buf ++ (s.conn.toServer ++ s.unsent) = tagged 0 rest.flatten)
      (htally : Tally serde done (serde.withRequest done) s.log s.conn.toClient)
  | handling {done rest : List Octets} {line : List Tagged} {request : Request}
      (hserver : s.conn.server = .handling line request) (hup : s.conn.up = true)
      (hlines : lines = done ++ bytesOf line :: rest)
      (hreadable : serde.fromUtf8 (bytesOf line) ≠ none)
      (hrequest : serde.requestOfLine (bytesOf line) = some request)
      (hbytes : s.conn.toServer ++ s.unsent = tagged 0 rest.flatten)
      (htally : Tally serde done (serde.withRequest done ++ [bytesOf line]) s.log s.conn.toClient)
  | writing {done rest : List Octets} {left : List Tagged} (hserver : s.conn.server = .writing left)
      (hup : s.conn.up = true) (hlines : lines = done ++ rest) (hleft : left ≠ [])
      (hbytes : s.conn.toServer ++ s.unsent = tagged 0 rest.flatten)
      (htally : Tally serde done (serde.withRequest done) s.log (s.conn.toClient ++ left))
  | ended (hserver : s.conn.server = .ended) (hbad : ∃ l ∈ lines, serde.fromUtf8 l = none)

theorem withRequest_append (p q : List Octets) :
    serde.withRequest (p ++ q) = serde.withRequest p ++ serde.withRequest q :=
  List.filter_append _ _

theorem withRequest_of_none (h : serde.requestOfLine l = none) : serde.withRequest [l] = [] := by
  simp [Serde.withRequest, h]

theorem withRequest_of_some {request : Request} (h : serde.requestOfLine l = some request) :
    serde.withRequest [l] = [l] := by
  simp [Serde.withRequest, h]

namespace Session

theorem progress_connect (serde : Serde) (lines : List Octets) :
    Progress serde lines (connect lines.flatten) :=
  .reading rfl rfl rfl (fun _ hb => absurd hb List.not_mem_nil) rfl tally_nil

theorem Progress.write {s t : Session} (h : Progress serde lines s)
    (hstep : Step serde s .write t) :
    Progress serde lines t := by
  simp only [Step, act] at hstep
  split at hstep
  · cases hstep
  · rename_i b rest hunsent
    cases hstep
    have hpush (hup : s.conn.up = true) :
        s.conn.push b = { s.conn with toServer := s.conn.toServer ++ [b] } := if_pos hup
    have happend : s.conn.toServer ++ [b] ++ rest = s.conn.toServer ++ s.unsent := by
      rw [hunsent, List.append_assoc, List.singleton_append]
    cases h with
    | reading hserver hup hlines hfree hbytes htally =>
      rw [hpush hup]
      exact .reading hserver hup hlines hfree (happend ▸ hbytes) htally
    | handling hserver hup hlines hreadable hrequest hbytes htally =>
      rw [hpush hup]
      exact .handling hserver hup hlines hreadable hrequest (happend ▸ hbytes) htally
    | writing hserver hup hlines hleft hbytes htally =>
      rw [hpush hup]
      exact .writing hserver hup hlines hleft (happend ▸ hbytes) htally
    | ended hserver hbad =>
      refine .ended ?_ hbad
      unfold Conn.push
      split <;> exact hserver

/-- The first line of what the client writes. -/
theorem first_line {p q : List Tagged} (hrest : ∀ l ∈ rest, IsLine isNewline (tagged 0 l))
    (hp : IsLine isNewline p) (h : p ++ q = tagged 0 rest.flatten) :
    ∃ rest', rest = bytesOf p :: rest' ∧ q = tagged 0 rest'.flatten := by
  cases rest with
  | nil => exact absurd (List.append_eq_nil_iff.mp h).1 hp.ne_nil
  | cons l rest' =>
    rw [List.flatten_cons, tagged_append] at h
    obtain ⟨rfl, rfl⟩ := hp.append_inj (hrest l List.mem_cons_self) h
    exact ⟨rest', by rw [bytesOf_tagged], rfl⟩

theorem Progress.receive {s t : Session} (h : Progress serde lines s)
    (hlines : ∀ l ∈ lines, IsLine isNewline (tagged 0 l))
    (hstep : Step serde s (.server .receive) t) : Progress serde lines t := by
  obtain ⟨log', c', hserve, rfl⟩ := exists_serve hstep
  cases h with
  | @reading done rest buf hserver hup hsplit hfree hbytes htally =>
    obtain ⟨buf', b, tail, hserver', hto, hcases⟩ := receive_cases hup hserve
    rw [hserver] at hserver'
    cases hserver'
    rw [hto, List.cons_append, List.append_cons] at hbytes
    rcases hcases with ⟨hb, rfl, rfl⟩ | ⟨hb, htake⟩
    · refine .reading rfl hup hsplit (fun x hx => ?_) hbytes htally
      rcases List.mem_append.mp hx with hx | hx
      · exact hfree x hx
      · rwa [List.mem_singleton.mp hx]
    · -- the line is the first of those the server is not done with
      have hrest : ∀ l ∈ rest, IsLine isNewline (tagged 0 l) := fun l hl =>
        hlines l (hsplit ▸ List.mem_append_right _ hl)
      obtain ⟨rest', rfl, htail⟩ := first_line hrest (isLine_concat hb hfree) hbytes
      have hsplit' : lines = done ++ [bytesOf (buf ++ [b])] ++ rest' := by
        rw [hsplit, List.append_assoc, List.singleton_append]
      obtain ⟨hnone, -, rfl⟩ | ⟨text, message, htext, hrequest, hwrite⟩ |
        ⟨text, request, htext, hrequest, rfl, rfl⟩ := takeUp_cases htake
      · exact .ended rfl ⟨_, hsplit ▸ List.mem_append_right _ List.mem_cons_self, hnone⟩
      · cases hwrite
        refine .writing rfl hup hsplit' (serde.isLine _ _).ne_nil htail ?_
        rw [withRequest_append, withRequest_of_none hrequest, List.append_nil]
        exact htally.answer _ _ (by simp [htext]) fun _ => ⟨message, rfl⟩
      · exact .handling rfl hup hsplit (by simp [htext]) hrequest htail (htally.start _)
  | handling hserver | writing hserver | ended hserver =>
    simp [serveConnection, hserver] at hserve

theorem Progress.respond {s t : Session} {response : Response} (h : Progress serde lines s)
    (hstep : Step serde s (.server (.respond response)) t) : Progress serde lines t := by
  obtain ⟨log', c', hserve, rfl⟩ := exists_serve hstep
  obtain ⟨line, request, hserver', hwrite⟩ := respond_cases hserve
  cases h with
  | @handling done rest line' request' hserver hup hsplit hreadable hrequest hbytes htally =>
    rw [hserver] at hserver'
    cases hserver'
    cases hwrite
    have hsplit' : lines = done ++ [bytesOf line] ++ rest := by
      rw [hsplit, List.append_assoc, List.singleton_append]
    refine .writing rfl hup hsplit' (serde.isLine _ _).ne_nil hbytes ?_
    rw [withRequest_append, withRequest_of_some hrequest]
    exact htally.answer _ _ hreadable fun hnone => by rw [hnone] at hrequest; cases hrequest
  | reading hserver | writing hserver | ended hserver =>
    rw [hserver] at hserver'
    cases hserver'

theorem Progress.send {s t : Session} (h : Progress serde lines s)
    (hstep : Step serde s (.server .send) t) : Progress serde lines t := by
  obtain ⟨log', c', hserve, rfl⟩ := exists_serve hstep
  obtain ⟨b, left, hserver', rfl, rfl⟩ := send_cases hserve
  cases h with
  | @writing done rest left' hserver hup hsplit hleft hbytes htally =>
    rw [hserver] at hserver'
    cases hserver'
    rw [List.append_cons] at htally
    by_cases hempty : left = []
    · rw [hempty, List.append_nil] at htally
      refine .reading (if_pos hempty) hup hsplit (fun x hx => absurd hx List.not_mem_nil) hbytes ?_
      simp only [hup, if_true]
      exact htally
    · refine .writing (if_neg hempty) hup hsplit hempty hbytes ?_
      simp only [hup, if_true]
      exact htally
  | reading hserver | handling hserver | ended hserver =>
    rw [hserver] at hserver'
    cases hserver'

theorem Progress.step {s t : Session} {a : SessionAct} (h : Progress serde lines s)
    (hlines : ∀ l ∈ lines, IsLine isNewline (tagged 0 l)) (hstep : WorkingStep serde s a t) :
    Progress serde lines t := by
  obtain ⟨hworks, hstep⟩ := hstep
  cases a with
  | write => exact h.write hstep
  | hangUp => exact hworks.elim
  | server a =>
    cases a with
    | receive => exact h.receive hlines hstep
    | respond response => exact h.respond hstep
    | send => exact h.send hstep
    | fail => exact hworks.elim
    | cut m n => exact hworks.elim

/-- Nothing moves any more only where the server waits, or is gone for a line that is no text. -/
theorem Progress.waiting_of_final {s : Session} (h : Progress serde lines s)
    (hlines : ∀ l ∈ lines, IsLine isNewline (tagged 0 l)) (hfinal : Final (WorkingStep serde) s) :
    (∃ l ∈ lines, serde.fromUtf8 l = none) ∨ s.Waiting := by
  have hunsent : s.unsent = [] := by
    cases hrest : s.unsent with
    | nil => rfl
    | cons b rest => exact absurd ⟨trivial, by rw [Step, act, hrest]⟩ (hfinal .write _)
  have hstuck (a : ServerAct) (ha : (SessionAct.server a).Works) :
      serveConnection serde s.log s.conn a = none := by
    cases hserve : serveConnection serde s.log s.conn a with
    | none => rfl
    | some r => exact absurd ⟨ha, by rw [Step, act, hserve, Option.map_some]⟩ (hfinal (.server a) _)
  cases h with
  | @reading done rest buf hserver hup hsplit hfree hbytes htally =>
    have hto : s.conn.toServer = [] := by
      cases hto : s.conn.toServer with
      | nil => rfl
      | cons b tail =>
        have hreceive := hstuck .receive trivial
        simp only [serveConnection, hserver, hto] at hreceive
        split at hreceive <;> cases hreceive
    rw [hto, hunsent, List.append_nil, List.append_nil] at hbytes
    have hrest : rest = [] := by
      cases rest with
      | nil => rfl
      | cons l rest' =>
        obtain ⟨b, hb, hstop⟩ :=
          (hlines l (hsplit ▸ List.mem_append_right _ List.mem_cons_self)).exists_stop
        rw [List.flatten_cons, tagged_append] at hbytes
        have hfalse := hfree b (hbytes ▸ List.mem_append_left _ hb)
        rw [hstop] at hfalse
        cases hfalse
    rw [hrest] at hbytes
    exact .inr ⟨hunsent, hto, by rw [hserver, hbytes]; rfl⟩
  | handling hserver =>
    have hrespond := hstuck (.respond .ok) trivial
    simp [serveConnection, hserver] at hrespond
  | @writing done rest left hserver hup hsplit hleft hbytes htally =>
    obtain ⟨b, left', rfl⟩ := List.exists_cons_of_ne_nil hleft
    have hsend := hstuck .send trivial
    simp [serveConnection, hserver] at hsend
  | ended hserver hbad => exact .inl hbad

/-- Where the server waits it is done with every line. -/
theorem Progress.tally_of_waiting {s : Session} (h : Progress serde lines s)
    (hlines : ∀ l ∈ lines, IsLine isNewline (tagged 0 l)) (hwaiting : s.Waiting) :
    Tally serde lines (serde.withRequest lines) s.log s.conn.toClient := by
  obtain ⟨hunsent, hto, hserver'⟩ := hwaiting
  cases h with
  | @reading done rest buf hserver hup hsplit hfree hbytes htally =>
    rw [hserver] at hserver'
    cases hserver'
    rw [hto, hunsent] at hbytes
    cases rest with
    | nil => rwa [hsplit, List.append_nil]
    | cons l rest' =>
      have hne := (hlines l (hsplit ▸ List.mem_append_right _ List.mem_cons_self)).ne_nil
      rw [List.flatten_cons, tagged_append] at hbytes
      exact absurd (List.append_eq_nil_iff.mp hbytes.symm).1 hne
  | handling hserver | writing hserver | ended hserver =>
    rw [hserver] at hserver'
    cases hserver'

end Session

theorem isLine_terminated (hlines : ∀ l ∈ lines, newline ∉ l) :
    ∀ l ∈ terminated lines, IsLine isNewline (tagged 0 l) := by
  intro l hl
  obtain ⟨body, hbody, rfl⟩ := List.mem_map.mp hl
  exact isLine_tagged 0 (hlines body hbody)

theorem progress_of_run {acts : List SessionAct} {s : Session}
    (hlines : ∀ l ∈ lines, IsLine isNewline (tagged 0 l))
    (hrun : Run (Session.WorkingStep serde) (.connect lines.flatten) acts s) :
    Session.Progress serde lines s :=
  hrun.invariant (Session.progress_connect serde lines) fun _ _ _ h hstep => h.step hlines hstep

theorem Tally.answered_all {s : Session}
    (h : Tally serde lines (serde.withRequest lines) s.log s.conn.toClient) :
    Answered serde lines s where
  answered := h.answered
  written := h.written
  oneLine e _ := serde.newline_not_mem e.response
  refused := h.refused
  started := h.started

/-- Every line is answered only if every line is text. -/
theorem AnswersEach.readable (hlines : ∀ l ∈ lines, newline ∉ l) (h : AnswersEach serde lines) :
    ∀ l ∈ lines, (serde.fromUtf8 (l ++ [newline])).isSome = true := by
  obtain ⟨acts, s, hrun, hfinal⟩ :=
    Session.terminates.exists_final (Session.connect (terminated lines).flatten)
  have htally := (progress_of_run (isLine_terminated hlines) hrun).tally_of_waiting
    (isLine_terminated hlines) (h.answered acts s hrun hfinal).1
  intro l hl
  exact Option.isSome_iff_ne_none.mpr (htally.readable _ (List.mem_map_of_mem hl))

theorem answersEach_of_readable (hlines : ∀ l ∈ lines, newline ∉ l)
    (hreadable : ∀ l ∈ lines, (serde.fromUtf8 (l ++ [newline])).isSome = true) :
    AnswersEach serde lines where
  ends := Session.terminates
  answered acts s hrun hfinal := by
    have hprogress := progress_of_run (isLine_terminated hlines) hrun
    rcases hprogress.waiting_of_final (isLine_terminated hlines) hfinal with
      ⟨l, hl, hnone⟩ | hwaiting
    · obtain ⟨body, hbody, rfl⟩ := List.mem_map.mp hl
      have hsome := hreadable body hbody
      rw [hnone] at hsome
      cases hsome
    · exact ⟨hwaiting,
        (hprogress.tally_of_waiting (isLine_terminated hlines) hwaiting).answered_all⟩

/-- A connection that works answers every line exactly if every line is UTF-8. -/
theorem session_answered_iff (serde : Serde) (lines : List Octets)
    (hlines : ∀ l ∈ lines, newline ∉ l) :
    AnswersEach serde lines ↔
      ∀ l ∈ lines, (serde.fromUtf8 (l ++ [newline])).isSome = true :=
  ⟨AnswersEach.readable hlines, answersEach_of_readable hlines⟩

namespace Kat

def plainSerde : Serde := Ipc.serdeJson fun _ => "expected value"

/-- Two bytes that are no text, before a request. -/
def notText : List Octets := [[0xff, 0xfe], marshal .getStatus]

end Kat

open Kat in
/-- A line that is not UTF-8 ends the session: it gets no answer, and neither does the next line. -/
theorem session_ended_by_bytes :
    ¬AnswersEach plainSerde notText ∧
    ∃ acts s, Run (Session.WorkingStep plainSerde) (.connect (terminated notText).flatten) acts s ∧
      s.conn.server = .ended ∧ s.log.answered = [] ∧ s.conn.toClient = [] := by
  have hfree : ∀ l ∈ notText, newline ∉ l := by decide +kernel
  have hbad : (plainSerde.fromUtf8 ([0xff, 0xfe] ++ [newline])).isSome = false := by decide +kernel
  constructor
  · intro hanswers
    have hsome := hanswers.readable hfree _ List.mem_cons_self
    rw [hbad] at hsome
    cases hsome
  · have hstart : Run (Session.WorkingStep plainSerde) (.connect (terminated notText).flatten) []
        (.connect (terminated notText).flatten) := .nil
    have hwrite := ((hstart.snoc (l := SessionAct.write) ⟨trivial, rfl⟩).snoc
      (l := SessionAct.write) ⟨trivial, rfl⟩).snoc (l := SessionAct.write) ⟨trivial, rfl⟩
    have hread := ((hwrite.snoc (l := SessionAct.server .receive) ⟨trivial, rfl⟩).snoc
      (l := SessionAct.server .receive) ⟨trivial, rfl⟩).snoc
      (l := SessionAct.server .receive) ⟨trivial, rfl⟩
    exact ⟨_, _, hread, rfl, rfl, rfl⟩

open Kat in
theorem session_answered_blank : AnswersEach plainSerde [marshal .getStatus, [], [0x7b]] :=
  (session_answered_iff plainSerde [marshal .getStatus, [], [0x7b]] (by decide +kernel)).mpr
    (by decide +kernel)

end Ipc

end SmartSfp
