import SmartSfp.Ipc.Pairing

/-!
# Uptake — what becomes of a request line and of a call

The server takes up the line of a call at most once, and then either starts the handler with the
request in it or refuses it; with `Pairing` that settles which of the two happened.  A call returns
with an error of its own, or with what it makes of a line it has read.
-/

namespace SmartSfp

namespace Ipc

open Lib Conn

variable {go : GoJson} {serde : Serde} {s s' : System} {i j k : Nat} {t : CallState}
  {req : ClientRequest} {c c' d : Conn} {log log' : Log} {line : List Tagged} {a : ServerAct}

/-- The request in a line. -/
def Serde.decode (serde : Serde) (line : List Tagged) : Option Request :=
  match serde.fromUtf8 (bytesOf line) with
  | none => none
  | some text =>
    match serde.fromStr text with
    | .error _ => none
    | .ok request => some request

/-- What a step of a server does to the log. -/
inductive LogMove (serde : Serde) (log : Log) (c : Conn) : ServerAct → Log → Conn → Prop where
  | started {line : List Tagged} {request : Request} {c' : Conn}
      (hdecode : serde.decode line = some request) (hserver : c'.server = .handling line request) :
      LogMove serde log c .receive { log with started := log.started ++ [line] } c'
  | refused {line rest : List Tagged} {message : String} {c' : Conn}
      (hdecode : serde.decode line = none) (hserver : c'.server = .writing rest)
      (hheld : ∀ j, mentions j line = true → c.holds j = true) :
      LogMove serde log c .receive
        { log with answered := log.answered ++ [⟨line, .error 400 message⟩] } c'
  | responded {line rest : List Tagged} {request : Request} {response : Response} {c' : Conn}
      (hserver : c.server = .handling line request) (hserver' : c'.server = .writing rest) :
      LogMove serde log c (.respond response)
        { log with answered := log.answered ++ [⟨line, response⟩] } c'
  | quiet {a : ServerAct} {c' : Conn} (hact : ∀ response, a ≠ .respond response)
      (hserver : ∀ line request, c'.server = .handling line request →
        a ≠ .receive ∧ c.server = .handling line request) :
      LogMove serde log c a log c'

theorem logMove_of_takeUp (hheld : ∀ j, mentions j line = true → c.holds j = true)
    (h : takeUp serde log d line = (log', c')) : LogMove serde log c .receive log' c' := by
  unfold takeUp at h
  split at h
  · cases h
    exact .quiet (fun _ hact => by cases hact) fun _ _ hserver => by cases hserver
  · rename_i text htext
    split at h
    · rename_i e he
      cases h
      exact .refused (by simp only [Serde.decode, htext, he]) rfl hheld
    · rename_i request hrequest
      cases h
      exact .started (by simp only [Serde.decode, htext, hrequest]) rfl

/-- A line with a request in it has its handler started. -/
theorem takeUp_of_decode {request : Request} (h : serde.decode line = some request) :
    takeUp serde log c line =
      ({ log with started := log.started ++ [line] },
        { c with server := .handling line request }) := by
  unfold takeUp
  split
  · rename_i htext
    simp only [Serde.decode, htext] at h
    cases h
  · rename_i text htext
    split
    · rename_i e he
      simp only [Serde.decode, htext, he] at h
      cases h
    · rename_i request' hrequest
      simp only [Serde.decode, htext, hrequest] at h
      cases h
      rfl

theorem logMove_of_serve (h : serveConnection serde log c a = some (log', c')) :
    LogMove serde log c a log' c' := by
  cases a with
  | receive =>
    simp only [serveConnection] at h
    split at h
    · rename_i l b rest hserver hto
      -- the line taken up was held by the connection, its end included
      have hheld (j : Nat) (hmem : mentions j (l ++ [b]) = true) : c.holds j = true := by
        simp only [Conn.holds, hserver, hto]
        rw [List.append_cons, mentions_append, hmem, Bool.true_or]
      split at h
      · exact logMove_of_takeUp hheld (Option.some.inj h)
      · cases h
        exact .quiet (fun _ hact => by cases hact) fun _ _ hserver => by cases hserver
    · rename_i l hserver hto
      have hheld (j : Nat) (hmem : mentions j l = true) : c.holds j = true := by
        simp only [Conn.holds, hserver, hto, List.append_nil]
        exact hmem
      split at h
      · cases h
      · split at h
        · cases h
          exact .quiet (fun _ hact => by cases hact) fun _ _ hserver => by cases hserver
        · exact logMove_of_takeUp hheld (Option.some.inj h)
    · cases h
  | respond response =>
    simp only [serveConnection] at h
    split at h
    · rename_i hserver
      cases h
      exact .responded hserver rfl
    · cases h
  | send =>
    simp only [serveConnection] at h
    split at h
    · rename_i b rest hserver
      cases h
      refine .quiet (fun _ hact => by cases hact) fun l request hserver' => ?_
      simp only at hserver'
      split at hserver' <;> cases hserver'
    · cases h
  | fail =>
    cases h
    exact .quiet (fun _ hact => by cases hact) fun _ _ hserver => by cases hserver
  | cut m n =>
    cases h
    refine .quiet (fun _ hact => by cases hact) fun _ _ hserver => ⟨?_, hserver⟩
    intro hact
    cases hact

namespace System

theorem step_client {x : ClientAct} (h : Step go serde s (.client i x) s') :
    ∃ t, s.calls[i]? = some t ∧ Client.callStep go i t s x = some s' := by
  simp only [Step, next] at h
  split at h
  · rename_i t ht
    exact ⟨t, ht, h⟩
  · cases h

theorem step_server (h : Step go serde s (.server k a) s') :
    ∃ c log' c', s.conns[k]? = some c ∧ serveConnection serde s.log c a = some (log', c') ∧
      s' = { s with log := log', conns := s.conns.set k c' } := by
  simp only [Step, next] at h
  split at h
  · rename_i c hc
    split at h
    · rename_i log' c' hserve
      exact ⟨c, log', c', hc, hserve, (Option.some.inj h).symm⟩
    · cases h
  · cases h

end System

/-! ## The client's steps -/

/-- A connection whose handler runs after the step was there with its handler before it. -/
def SameHandlers (s s' : System) : Prop :=
  ∀ (k : Nat) (c' : Conn) (line : List Tagged) (request : Request), s'.conns[k]? = some c' →
    c'.server = .handling line request →
      ∃ c, s.conns[k]? = some c ∧ c.server = .handling line request

theorem sameHandlers_of_conns (h : s'.conns = s.conns) : SameHandlers s s' :=
  fun _ c' _ _ hk hserver => ⟨c', h ▸ hk, hserver⟩

/-- One connection changes, and waits for no further handler. -/
theorem sameHandlers_of_set (hk : s.conns[k]? = some c) (hconns : s'.conns = s.conns.set k c')
    (hserver : ∀ line request, c'.server = .handling line request →
      c.server = .handling line request) : SameHandlers s s' := by
  intro k' d l request hk' hd
  rw [hconns, System.getElem?_conns_set hk] at hk'
  split at hk'
  · rename_i heq
    cases hk'
    exact ⟨c, heq ▸ hk, hserver l request hd⟩
  · exact ⟨d, hk', hd⟩

theorem sameHandlers_dropConn (h : s'.conns = s.dropConn.conns) : SameHandlers s s' := by
  obtain heq | ⟨k, c, hk, heq⟩ := s.dropConn_conns
  · exact sameHandlers_of_conns (h.trans heq)
  · exact sameHandlers_of_set hk (h.trans heq) fun _ _ hserver => hserver

/-- The client leaves the log and the handlers alone. -/
theorem Client.Move.sameHandlers (h : Client.Move go i t s s') :
    s'.log = s.log ∧ SameHandlers s s' := by
  cases h with
  | closed hpc hconn => exact ⟨rfl, sameHandlers_dropConn rfl⟩
  | writeFailed hpc => exact ⟨rfl, sameHandlers_dropConn rfl⟩
  | readFailed hpc => exact ⟨rfl, sameHandlers_dropConn rfl⟩
  | dialed hpc hcall hconn =>
    -- the new connection waits for no handler
    refine ⟨rfl, fun k c' l request hk hserver => ?_⟩
    rcases getElem?_concat hk with hk | ⟨-, rfl⟩
    · exact ⟨c', hk, hserver⟩
    · cases hserver
  | @wrote b rest k hpc hconn =>
    refine ⟨rfl, ?_⟩
    cases hk : s.conns[k]? with
    | none => exact sameHandlers_of_conns (List.modify_eq_self (List.getElem?_eq_none_iff.mp hk))
    | some c =>
      have hserver : (c.push (i, b)).server = c.server := by
        unfold Conn.push
        split <;> rfl
      exact sameHandlers_of_set hk (modify_eq_set_of_getElem? hk) fun _ _ hd => hserver ▸ hd
  | filled hpc hreader hc hto =>
    exact ⟨rfl, sameHandlers_of_set hc rfl fun _ _ hserver => hserver⟩
  | _ => exact ⟨rfl, sameHandlers_of_conns rfl⟩

/-! ## One uptake -/

namespace System

/-- A handler runs with the request in its line. -/
def Decoded (serde : Serde) (s : System) : Prop :=
  ∀ (k : Nat) (c : Conn) (line : List Tagged) (request : Request), s.conns[k]? = some c →
    c.server = .handling line request → serde.decode line = some request

/-- How often a line of call `j` was refused. -/
def refusals (serde : Serde) (s : System) (j : Nat) : Nat :=
  s.log.answered.countP fun x => mentions j x.line && (serde.decode x.line).isNone

theorem Decoded.of_sameHandlers (h : Decoded serde s) (hsame : SameHandlers s s') :
    Decoded serde s' := by
  intro k c' l request hk hserver
  obtain ⟨c, hk, hserver⟩ := hsame k c' l request hk hserver
  exact h k c l request hk hserver

theorem Decoded.server (h : Decoded serde s) (hk : s.conns[k]? = some c)
    (hmove : LogMove serde s.log c a log' c') :
    Decoded serde { s with log := log', conns := s.conns.set k c' } := by
  intro k' d l request hk' hd
  rw [getElem?_conns_set hk] at hk'
  split at hk'
  · cases hk'
    cases hmove with
    | started hdecode hserver =>
      rw [hserver] at hd
      cases hd
      exact hdecode
    | refused hdecode hserver hheld =>
      rw [hserver] at hd
      cases hd
    | responded hserver hserver' =>
      rw [hserver'] at hd
      cases hd
    | quiet hact hserver => exact h k c l request hk (hserver l request hd).2
  · exact h k' d l request hk' hd

theorem refusals_concat (serde : Serde) (s : System) (x : Exchange) (conns : List Conn) (j : Nat) :
    refusals serde { s with
      log := { s.log with answered := s.log.answered ++ [x] }, conns := conns } j =
      refusals serde s j + if mentions j x.line && (serde.decode x.line).isNone then 1 else 0 := by
  simp only [refusals, List.countP_append, List.countP_singleton]

theorem refusals_server (h : Decoded serde s) (hinv : Inv go serde s) (hk : s.conns[k]? = some c)
    (hserve : ServerMove serde s.log c log' c') (hmove : LogMove serde s.log c a log' c')
    (j : Nat) :
    tokens go { s with log := log', conns := s.conns.set k c' } j +
      refusals serde { s with log := log', conns := s.conns.set k c' } j ≤
        tokens go s j + refusals serde s j := by
  have hholds := hserve.holds (hinv.orderly c (List.mem_of_getElem? hk)) j
  have hcount := countP_conns_set c' hk j
  have hunspent : unspent go { s with log := log', conns := s.conns.set k c' } j =
      unspent go s j := rfl
  have hkeep (hsame : refusals serde { s with log := log', conns := s.conns.set k c' } j =
      refusals serde s j) :
      tokens go { s with log := log', conns := s.conns.set k c' } j +
        refusals serde { s with log := log', conns := s.conns.set k c' } j ≤
          tokens go s j + refusals serde s j := by
    simp only [tokens, executions, hunspent, hsame]
    omega
  cases hmove with
  | started hdecode hserver => exact hkeep rfl
  | @refused l rest message _ hdecode hserver hheld =>
    -- the refused line gives up the token the connection had for it
    have hnot : c'.holds j = false := by simp only [Conn.holds, hserver]
    have hle : (if mentions j l && (serde.decode l).isNone then 1 else 0) ≤
        if c.holds j then 1 else 0 :=
      ite_le_ite fun hmem => hheld j (Bool.and_eq_true_iff.mp hmem).1
    rw [hnot] at hcount
    simp only [tokens, executions, hunspent, refusals_concat serde s ⟨l, .error 400 message⟩]
    simp only [Bool.false_eq_true, if_false] at hcount
    omega
  | @responded l rest request response _ hserver hserver' =>
    -- a line that was handled decodes, so its answer is no refusal
    apply hkeep
    rw [refusals_concat serde s ⟨l, response⟩]
    simp [h k c l request hk hserver]
  | quiet hact hserver => exact hkeep rfl

theorem run_refusals {acts : List Act} (h : Run (System.Step go serde) new acts s) :
    Decoded serde s ∧ ∀ j, tokens go s j + refusals serde s j ≤ 1 := by
  induction h with
  | nil =>
    refine ⟨fun k c l request hk _ => (by cases hk), fun j => ?_⟩
    exact Nat.le_refl 1
  | @snoc acts s s' a run last ih =>
    obtain ⟨hdecoded, hle⟩ := ih
    have hinv := run_inv run
    have hclient (hlog : s'.log = s.log) (hsame : SameHandlers s s') :
        Decoded serde s' ∧ ∀ j, tokens go s' j + refusals serde s' j ≤ 1 := by
      refine ⟨hdecoded.of_sameHandlers hsame, fun j => ?_⟩
      have hrefusals : refusals serde s' j = refusals serde s j := by simp only [refusals, hlog]
      have htokens := tokens_step hinv last j
      have hj := hle j
      omega
    cases a with
    | start call =>
      cases last
      exact hclient rfl (sameHandlers_of_conns rfl)
    | client i x =>
      obtain ⟨t, ht, hstep⟩ := step_client last
      have hmove := Client.move_of_step hstep
      exact hclient hmove.sameHandlers.1 hmove.sameHandlers.2
    | server k x =>
      obtain ⟨c, log', c', hk, hserve, rfl⟩ := step_server last
      have hmove := logMove_of_serve hserve
      exact ⟨hdecoded.server hk hmove, fun j => Nat.le_trans
        (refusals_server hdecoded hinv hk (move_of_serve hserve) hmove j) (hle j)⟩

end System

/-! ## What a call returns -/

/-- A request returns with an error of the client, or with what it makes of a line it has read. -/
def Ends (go : GoJson) (req : ClientRequest) (line : List Tagged) (r : Returned) : Prop :=
  (line = [] ∧ ∃ e, r = .failed e) ∨ (line ≠ [] ∧ r = Client.reply go req (bytesOf line))

/-- What the step of a call does to the calls. -/
inductive CallMove (go : GoJson) (i : Nat) (t : CallState) (s s' : System) : Prop where
  | same (hcalls : s'.calls = s.calls)
  | moved (pc' : CallPc) (hcalls : s'.calls = s.calls.set i { t with pc := pc' })
      (hends : ∀ req line r, t.call = .request req → pc' = .done line r → Ends go req line r)

theorem callMove_of_goto {pc' : CallPc} (hcalls : s'.calls = s.calls.set i { t with pc := pc' })
    (hpc : ∀ line r, pc' ≠ .done line r) : CallMove go i t s s' :=
  .moved pc' hcalls fun _ line r _ hdone => absurd hdone (hpc line r)

theorem callMove_of_failed {e : ClientError}
    (hcalls : s'.calls = s.calls.set i { t with pc := .done [] (.failed e) }) :
    CallMove go i t s s' := by
  refine .moved _ hcalls fun req l r hcall hdone => ?_
  cases hdone
  exact .inl ⟨rfl, e, rfl⟩

/-- A call that has returned takes no further step. -/
theorem Client.Move.not_done (h : Client.Move go i t s s') (line : List Tagged) (r : Returned) :
    t.pc ≠ .done line r := by
  cases h <;> simp_all

/-- With the mutex in hand the call closes the connection, or sees that there is one. -/
theorem locked_cases {x : ClientAct} (hpc : t.pc = .locked)
    (h : Client.callStep go i t s x = some s') :
    (t.call = .close ∧ s' = Client.close i t s) ∨
      ∃ req dial, s' = Client.connect go i t req dial s := by
  obtain ⟨call, pc⟩ := t
  cases hpc
  cases x with
  | enter dial =>
    cases call with
    | close =>
      cases h
      exact .inl ⟨rfl, rfl⟩
    | request req =>
      cases h
      exact .inr ⟨req, dial, rfl⟩
  | _ => cases h

theorem callMove_of_step {x : ClientAct} (h : Client.callStep go i t s x = some s') :
    CallMove go i t s s' := by
  by_cases hlocked : t.pc = .locked
  · obtain ⟨hcall, rfl⟩ | ⟨req, dial, rfl⟩ := locked_cases hlocked h
    · refine .moved (.done [] .closed) ?_ fun req l r hreq => ?_
      · unfold Client.close
        split <;> rfl
      · rw [hcall] at hreq
        cases hreq
    · unfold Client.connect
      split
      · exact callMove_of_goto rfl (by simp)
      · split
        · exact callMove_of_failed rfl
        · exact callMove_of_goto rfl (by simp)
  · cases Client.move_of_step h with
    | locked hpc hmu => exact callMove_of_goto rfl (by simp)
    | closed hpc hconn => exact absurd hpc hlocked
    | closedIdle hpc hconn => exact absurd hpc hlocked
    | reused hpc hcall hconn => exact absurd hpc hlocked
    | dialFailed hpc hconn => exact absurd hpc hlocked
    | dialed hpc hcall hconn => exact absurd hpc hlocked
    | wrote hpc hconn =>
      refine callMove_of_goto rfl fun l r => ?_
      split <;> simp
    | writeFailed hpc => exact callMove_of_failed rfl
    | filled hpc hreader hc hto => exact .same rfl
    | returned hpc hcall hreader hline =>
      refine .moved _ rfl fun req' l' r' hreq hdone => ?_
      rw [hcall] at hreq
      cases hreq
      cases hdone
      exact .inr ⟨(takeLine_eq_some hline).2.ne_nil, rfl⟩
    | readFailed hpc => exact callMove_of_failed rfl

namespace System

/-- A call stays what it is, and once it has returned it stays as it returned. -/
theorem calls_step {a : Act} (h : Step go serde s a s') (ht : s.calls[i]? = some t) :
    ∃ t', s'.calls[i]? = some t' ∧ t'.call = t.call ∧
      ∀ line r, t.pc = .done line r → t' = t := by
  cases a with
  | start call =>
    cases h
    exact ⟨t, getElem?_of_initial (List.prefix_append _ _) ht, rfl, fun _ _ _ => rfl⟩
  | client j x =>
    obtain ⟨u, hu, hstep⟩ := step_client h
    have hdone := (Client.move_of_step hstep).not_done
    cases callMove_of_step hstep with
    | same hcalls => exact ⟨t, hcalls ▸ ht, rfl, fun _ _ _ => rfl⟩
    | moved pc' hcalls hends =>
      rw [hcalls, getElem?_calls_set hu]
      by_cases hij : i = j
      · subst hij
        rw [hu] at ht
        cases ht
        exact ⟨_, if_pos rfl, rfl, fun l r hpc => absurd hpc (hdone l r)⟩
      · exact ⟨t, (if_neg hij).trans ht, rfl, fun _ _ _ => rfl⟩
  | server k x =>
    obtain ⟨c, log', c', -, -, rfl⟩ := step_server h
    exact ⟨t, ht, rfl, fun _ _ _ => rfl⟩

theorem run_ends {acts : List Act} (h : Run (Step go serde) new acts s) {r : Returned}
    (ht : s.calls[i]? = some ⟨.request req, .done line r⟩) : Ends go req line r := by
  induction h generalizing i req line r with
  | nil => cases ht
  | @snoc acts s s' a run last ih =>
    cases a with
    | start call =>
      cases last
      rcases getElem?_concat ht with ht | ⟨-, ht⟩
      · exact ih ht
      · cases ht
    | client j x =>
      obtain ⟨u, hu, hstep⟩ := step_client last
      cases callMove_of_step hstep with
      | same hcalls => exact ih (hcalls ▸ ht)
      | moved pc' hcalls hends =>
        rw [hcalls, getElem?_calls_set hu] at ht
        split at ht
        · obtain ⟨call, pc⟩ := u
          cases ht
          exact hends req line r rfl rfl
        · exact ih ht
    | server k x =>
      obtain ⟨c, log', c', -, -, rfl⟩ := step_server last
      exact ih ht

end System

end Ipc

end SmartSfp
