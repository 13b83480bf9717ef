import SmartSfp.Ipc.Session
import SmartSfp.Lib.Json.Prefix

/-!
# Cut — a connection that ends within a line

At the end of the stream `read_line` hands over what it has, and `serve_connection` takes that for a
line.  A client writes one JSON object on a line; no proper initial part of it is a JSON text, so a
line that was cut is either whole but for its newline, or no request.
-/

namespace SmartSfp

namespace Ipc

open Lib

/-- What is assumed of `read_line` and `serde_json::from_str`: bytes are taken for the text they
encode, white space around a text does not matter, and of the initial parts of what a client writes
only a complete JSON text is accepted. -/
structure Serde.Complete (serde : Serde) : Prop where
  fromUtf8_iff : ∀ bytes text, serde.fromUtf8 bytes = some text ↔ Text.utf8 text = bytes
  fromStr_trim : ∀ s t request, trim s.toList = trim t.toList → serde.fromStr s = .ok request →
    serde.fromStr t = .ok request
  read_of_fromStr : ∀ req text request, text.toList <+: Json.text (.obj (requestMembers req)) →
    serde.fromStr text = .ok request → ∃ v, Json.read (trim text.toList) = some v

theorem complete_serdeJson (errorText : String → String) : (serdeJson errorText).Complete where
  fromUtf8_iff _ _ := Text.fromUtf8_eq_some_iff
  fromStr_trim s t request htrim h := by
    simp only [serdeJson, requestOfText] at h ⊢
    rw [← htrim]
    split at h
    · cases h
      rfl
    · cases h
  read_of_fromStr _ text request _ h := by
    simp only [serdeJson, requestOfText] at h
    split at h
    · rename_i hrequest
      obtain ⟨v, hv, -⟩ := Option.bind_eq_some_iff.mp hrequest
      exact ⟨v, hv⟩
    · cases h

/-! ## An initial part of a request -/

/-- Nothing is trimmed off the front of what starts like an object. -/
theorem trim_prefix {cs : List Char} {ms : Members} (h : cs <+: Json.text (.obj ms)) :
    trim cs <+: cs := by
  have hfront : cs.dropWhile isWhitespace = cs := by
    cases cs with
    | nil => rfl
    | cons c tail =>
      obtain ⟨middle, hmiddle⟩ := Json.text_obj_eq ms
      rw [hmiddle] at h
      have hc : c = '{' := (List.cons_prefix_cons.mp h).1
      have hopen : isWhitespace '{' = false := by decide
      rw [hc, List.dropWhile_cons_of_neg (by simp [hopen])]
  rw [trim, hfront, ← List.reverse_suffix, List.reverse_reverse]
  exact List.dropWhile_suffix _

variable {serde : Serde} {req : ClientRequest} {request : Request}

/-- An initial part of a request that reads as one is the request but for its newline. -/
theorem whole_of_requestOfLine (hserde : serde.Complete) {bytes : Octets}
    (hpre : bytes <+: marshal req) (h : serde.requestOfLine bytes = some request) :
    bytes = marshal req ∧ serde.requestOfLine (requestLine req) = some request := by
  obtain ⟨text, htext, hok⟩ := Option.bind_eq_some_iff.mp h
  have hstr : serde.fromStr text = .ok request := by
    cases hresult : serde.fromStr text with
    | error e =>
      rw [hresult] at hok
      cases hok
    | ok r =>
      rw [hresult] at hok
      cases hok
      rfl
  have hbytes := (hserde.fromUtf8_iff bytes text).mp htext
  have hchars : text.toList <+: Json.text (.obj (requestMembers req)) := by
    rw [← hbytes, marshal] at hpre
    have hlist := Text.toList_prefix_of_utf8 hpre
    rwa [String.toList_ofList] at hlist
  have htrim := trim_prefix hchars
  obtain ⟨v, hv⟩ := hserde.read_of_fromStr req text request hchars hstr
  have hwhole := Json.eq_text_of_read (htrim.trans hchars) hv
  -- nothing was trimmed either, as the trimmed text is already the whole one
  have hsame : text.toList = Json.text (.obj (requestMembers req)) :=
    hchars.eq_of_length_le (hwhole ▸ htrim.length_le)
  have htext' : text = String.ofList (Json.text (.obj (requestMembers req))) := by
    rw [← hsame, String.ofList_toList]
  constructor
  · rw [← hbytes, htext', marshal]
  · have hline : serde.fromUtf8 (requestLine req) = some (text ++ "\n") := by
      rw [hserde.fromUtf8_iff, htext', ← requestLine_eq]
    have hnewline : "\n".toList = ['\n'] := by decide
    have hok' := hserde.fromStr_trim text (text ++ "\n") request (by
      rw [hwhole, String.toList_append, hnewline, hsame, trim_object]) hstr
    simp only [Serde.requestOfLine, hline, Option.bind_some, hok']
    rfl

/-! ## A connection on which no newline arrives -/

/-- The line was read to the end of the stream, and held a request. -/
def TakenAtEnd (serde : Serde) (p : Octets) (line : List Tagged) : Prop :=
  bytesOf line <+: p ∧ ∃ request, serde.requestOfLine (bytesOf line) = some request

/-- No line is taken up before the stream ends, and none after that. -/
inductive Session.Unended (serde : Serde) (p : Octets) (s : Session) : Prop where
  | reading {buf : List Tagged} (hserver : s.conn.server = .reading buf)
      (hread : bytesOf (buf ++ s.conn.toServer) <+: p)
      (hbytes : s.conn.up = true → bytesOf (buf ++ (s.conn.toServer ++ s.unsent)) = p)
      (hstarted : s.log.started = [])
  | handling {line : List Tagged} {request : Request}
      (hserver : s.conn.server = .handling line request) (hup : s.conn.up = false)
      (hto : s.conn.toServer = []) (hline : bytesOf line <+: p)
      (hrequest : serde.requestOfLine (bytesOf line) = some request)
      (hstarted : s.log.started = [line])
  | past (hserver : s.conn.server = .reading [] ∨ s.conn.server = .ended ∨
        ∃ left, s.conn.server = .writing left)
      (hup : s.conn.up = false) (hto : s.conn.toServer = [])
      (hstarted : s.log.started = [] ∨ ∃ line, s.log.started = [line] ∧ TakenAtEnd serde p line)

namespace Session

variable {p : Octets} {s t : Session}

theorem unended_connect (serde : Serde) (p : Octets) : Unended serde p (connect p) :=
  .reading rfl (List.nil_prefix) (fun _ => bytesOf_tagged 0 p) rfl

theorem push_of_down {c : Conn} (hup : c.up = false) (b : Tagged) : c.push b = c := by
  rw [Conn.push, if_neg (by rw [hup]; decide)]

theorem Unended.write (h : Unended serde p s) (hstep : Step serde s .write t) :
    Unended serde p t := by
  simp only [Step, act] at hstep
  split at hstep
  · cases hstep
  · rename_i b rest hunsent
    cases hstep
    cases h with
    | @reading buf hserver hread hbytes hstarted =>
      cases hup : s.conn.up with
      | true =>
        have hpush : s.conn.push b = { s.conn with toServer := s.conn.toServer ++ [b] } :=
          if_pos hup
        have hall := hbytes hup
        rw [hunsent, List.append_cons, ← List.append_assoc] at hall
        rw [hpush]
        refine .reading hserver ?_ (fun _ => by rw [← List.append_assoc]; exact hall) hstarted
        rw [← hall, bytesOf_append _ rest]
        exact List.prefix_append _ _
      | false =>
        rw [push_of_down hup]
        refine .reading hserver hread (fun hup' => ?_) hstarted
        rw [hup] at hup'
        cases hup'
    | handling hserver hup hto hline hrequest hstarted =>
      rw [push_of_down hup]
      exact .handling hserver hup hto hline hrequest hstarted
    | past hserver hup hto hstarted =>
      rw [push_of_down hup]
      exact .past hserver hup hto hstarted

/-- At the end of the stream the server takes up what it has, or is done. -/
theorem end_cases {log log' : Log} {c c' : Conn} {buf : List Tagged}
    (hserver : c.server = .reading buf) (hto : c.toServer = [])
    (h : serveConnection serde log c .receive = some (log', c')) :
    c.up = false ∧ ((log' = log ∧ c' = c.finish) ∨ takeUp serde log c buf = (log', c')) := by
  simp only [serveConnection, hserver, hto] at h
  cases hup : c.up with
  | true => simp [hup] at h
  | false =>
    rw [hup, if_neg (by decide)] at h
    refine ⟨rfl, ?_⟩
    split at h
    · cases h
      exact .inl ⟨rfl, rfl⟩
    · exact .inr (Option.some.inj h)

theorem Unended.receive (hp : newline ∉ p) (h : Unended serde p s)
    (hstep : Step serde s (.server .receive) t) : Unended serde p t := by
  obtain ⟨log', c', hserve, rfl⟩ := exists_serve hstep
  cases h with
  | @reading buf hserver hread hbytes hstarted =>
    cases hto : s.conn.toServer with
    | cons b rest =>
      -- a byte of `p`, so not the end of a line
      have hb : isNewline b = false := by
        apply beq_eq_false_iff_ne.mpr
        intro hnl
        apply hp
        rw [← hnl]
        apply hread.subset
        rw [hto]
        exact List.mem_map_of_mem (List.mem_append_right _ List.mem_cons_self)
      simp only [serveConnection, hserver, hto, hb] at hserve
      cases hserve
      rw [hto, List.append_cons] at hread
      refine .reading rfl hread (fun hup => ?_) hstarted
      have hall := hbytes hup
      rwa [hto, List.cons_append, List.append_cons] at hall
    | nil =>
      rw [hto, List.append_nil] at hread
      obtain ⟨hup, ⟨rfl, rfl⟩ | htake⟩ := end_cases hserver hto hserve
      · exact .past (.inr (.inl rfl)) rfl rfl (.inl hstarted)
      · obtain ⟨-, rfl, rfl⟩ | ⟨text, message, -, -, hwrite⟩ |
          ⟨text, request, -, hrequest, rfl, rfl⟩ := takeUp_cases htake
        · exact .past (.inr (.inl rfl)) rfl rfl (.inl hstarted)
        · cases hwrite
          exact .past (.inr (.inr ⟨_, rfl⟩)) hup hto (.inl hstarted)
        · refine .handling rfl hup hto hread hrequest ?_
          simp only [hstarted, List.nil_append]
  | handling hserver => simp [serveConnection, hserver] at hserve
  | past hserver hup hto hstarted =>
    rcases hserver with hserver | hserver | ⟨left, hserver⟩
    · obtain ⟨-, ⟨rfl, rfl⟩ | htake⟩ := end_cases hserver hto hserve
      · exact .past (.inr (.inl rfl)) rfl rfl hstarted
      · simp only [serveConnection, hserver, hto, hup] at hserve
        cases hserve
        exact .past (.inr (.inl rfl)) rfl rfl hstarted
    · simp [serveConnection, hserver] at hserve
    · simp [serveConnection, hserver] at hserve

theorem Unended.respond {response : Response} (h : Unended serde p s)
    (hstep : Step serde s (.server (.respond response)) t) : Unended serde p t := by
  obtain ⟨log', c', hserve, rfl⟩ := exists_serve hstep
  obtain ⟨line, request, hserver', hwrite⟩ := respond_cases hserve
  cases h with
  | handling hserver hup hto hline hrequest hstarted =>
    cases hwrite
    exact .past (.inr (.inr ⟨_, rfl⟩)) hup hto (.inr ⟨_, hstarted, hline, _, hrequest⟩)
  | reading hserver =>
    rw [hserver] at hserver'
    cases hserver'
  | past hserver =>
    rw [hserver'] at hserver
    simp at hserver

theorem Unended.send (h : Unended serde p s) (hstep : Step serde s (.server .send) t) :
    Unended serde p t := by
  obtain ⟨log', c', hserve, rfl⟩ := exists_serve hstep
  obtain ⟨b, left, hserver', rfl, rfl⟩ := send_cases hserve
  cases h with
  | past hserver hup hto hstarted =>
    by_cases hleft : left = []
    · exact .past (.inl (if_pos hleft)) hup hto hstarted
    · exact .past (.inr (.inr ⟨left, if_neg hleft⟩)) hup hto hstarted
  | reading hserver | handling hserver =>
    rw [hserver] at hserver'
    cases hserver'

theorem Unended.fail (h : Unended serde p s) (hstep : Step serde s (.server .fail) t) :
    Unended serde p t := by
  obtain ⟨log', c', hserve, rfl⟩ := exists_serve hstep
  cases hserve
  refine .past (.inr (.inl rfl)) rfl rfl ?_
  cases h with
  | reading hserver hread hbytes hstarted => exact .inl hstarted
  | handling hserver hup hto hline hrequest hstarted =>
    exact .inr ⟨_, hstarted, hline, _, hrequest⟩
  | past hserver hup hto hstarted => exact hstarted

/-- The client's end closes, or the connection is cut and loses bytes. -/
theorem Unended.down (h : Unended serde p s) (m n : Nat) :
    Unended serde p { s with conn := { s.conn with
      up := false, toServer := s.conn.toServer.take m, toClient := s.conn.toClient.take n } } := by
  cases h with
  | @reading buf hserver hread hbytes hstarted =>
    refine .reading hserver ?_ (fun hup => by cases hup) hstarted
    refine List.IsPrefix.trans ?_ hread
    rw [bytesOf_append, bytesOf_append]
    exact (List.prefix_append_right_inj _).mpr ((List.take_prefix m _).map _)
  | handling hserver hup hto hline hrequest hstarted =>
    exact .handling hserver rfl (by simp [hto]) hline hrequest hstarted
  | past hserver hup hto hstarted => exact .past hserver rfl (by simp [hto]) hstarted

theorem Unended.step {a : SessionAct} (hp : newline ∉ p) (h : Unended serde p s)
    (hstep : Step serde s a t) : Unended serde p t := by
  cases a with
  | write => exact h.write hstep
  | hangUp =>
    simp only [Step, act] at hstep
    split at hstep
    · cases hstep
      have hdown := h.down s.conn.toServer.length s.conn.toClient.length
      rwa [List.take_length, List.take_length] at hdown
    · cases hstep
  | server a =>
    cases a with
    | receive => exact h.receive hp hstep
    | respond response => exact h.respond hstep
    | send => exact h.send hstep
    | fail => exact h.fail hstep
    | cut m n =>
      cases hstep
      exact h.down m n

/-- What was started is one line at most, taken at the end of the stream. -/
theorem Unended.started (h : Unended serde p s) :
    s.log.started = [] ∨ ∃ line, s.log.started = [line] ∧ TakenAtEnd serde p line := by
  cases h with
  | reading hserver hread hbytes hstarted => exact .inl hstarted
  | handling hserver hup hto hline hrequest hstarted =>
    exact .inr ⟨_, hstarted, hline, _, hrequest⟩
  | past hserver hup hto hstarted => exact hstarted

end Session

/-- Whatever happens on a connection on which a proper initial part of a request arrives: the
handler is started at most once, only if just the newline is missing, and with the request of the
whole line. -/
theorem cut_runs_nothing_else (hserde : serde.Complete) (req : ClientRequest) (p : Octets)
    (hp : p <+: requestLine req) (hne : p ≠ requestLine req) (acts : List SessionAct) (s : Session)
    (hrun : Run (Session.Step serde) (.connect p) acts s) :
    s.log.started.length ≤ 1 ∧ (s.log.started ≠ [] → p = marshal req) ∧
      ∀ line request, s.conn.server = .handling line request →
        p = marshal req ∧ bytesOf line = p ∧
          serde.requestOfLine (requestLine req) = some request := by
  have hmarshal : p <+: marshal req := (List.prefix_concat_iff.mp hp).resolve_left hne
  have hfree : newline ∉ p := fun h => newline_not_mem_marshal req (hmarshal.subset h)
  have hinv : Session.Unended serde p s :=
    hrun.invariant (Session.unended_connect serde p) fun _ _ _ h hstep => h.step hfree hstep
  -- a line that holds a request is the request, and `p` is between the two
  have hwhole {line : Octets} {request : Request} (hline : line <+: p)
      (hrequest : serde.requestOfLine line = some request) :
      p = marshal req ∧ line = p ∧ serde.requestOfLine (requestLine req) = some request := by
    obtain ⟨heq, hdecode⟩ := whole_of_requestOfLine hserde (hline.trans hmarshal) hrequest
    have hpm : p = marshal req := hmarshal.eq_of_length_le (heq ▸ hline.length_le)
    exact ⟨hpm, heq.trans hpm.symm, hdecode⟩
  refine ⟨?_, ?_, ?_⟩
  · rcases hinv.started with hnil | ⟨line, hone, -⟩
    · rw [hnil]
      exact Nat.zero_le 1
    · rw [hone]
      exact Nat.le_refl 1
  · intro hstarted
    rcases hinv.started with hnil | ⟨line, -, hline, request, hrequest⟩
    · exact absurd hnil hstarted
    · exact (hwhole hline hrequest).1
  · intro line request hserver
    cases hinv with
    | handling hserver' hup hto hline hrequest hstarted =>
      rw [hserver] at hserver'
      cases hserver'
      exact hwhole hline hrequest
    | reading hserver' =>
      rw [hserver] at hserver'
      cases hserver'
    | past hserver' =>
      rw [hserver] at hserver'
      simp at hserver'

namespace Kat

/-- `GetStatus` without its newline, up to the handler. -/
def cutActs : List SessionAct :=
  List.replicate 23 .write ++ [.hangUp] ++ List.replicate 24 (.server .receive)

def cutHandling : Session where
  unsent := []
  log := ⟨[tagged 0 (marshal .getStatus)], []⟩
  conn := ⟨false, [], [], .handling (tagged 0 (marshal .getStatus)) .getStatus⟩

theorem cut_run : Run (Session.Step plainSerde) (.connect (marshal .getStatus)) cutActs
    cutHandling := by
  apply Run.of_foldlM
  decide +kernel

end Kat

open Kat in
theorem cut_runs_status : cutHandling.log.started.length ≤ 1 ∧
    plainSerde.requestOfLine (requestLine .getStatus) = some .getStatus := by
  have hcut := cut_runs_nothing_else (complete_serdeJson _) .getStatus (marshal .getStatus)
    (List.prefix_append _ _) (by decide +kernel) cutActs cutHandling cut_run
  exact ⟨hcut.1, (hcut.2.2 _ _ rfl).2.2⟩

end Ipc

end SmartSfp
