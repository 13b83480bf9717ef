import SmartSfp.Cryptod.Serial
import SmartSfp.Node.Delivery

/-!
# Sequence — an agent that is alone with its daemon

The client holds its mutex for a whole call and keeps one connection.  As long as nothing fails on
the socket and no one else uses it, the next request reaches the daemon only after the answer to the
one before has come back, so the daemon handles one request at a time, however many goroutines call.
-/

namespace SmartSfp

namespace Node

open Lib Ipc Cryptod Httpapi World

/-- No call has failed but in dialling. -/
def NoFailure (ipc : System) : Prop :=
  ∀ (i : Nat) call line e, ipc.calls[i]? = some ⟨call, .done line (.failed e)⟩ →
    ∃ message, e = .dial message

/-- Another client makes a request, or a task of the server dies. -/
def Act.foreign : Act → Bool
  | .other _ | .server _ .fail => true
  | _ => false

def OnlyAgent (acts : List Act) : Prop := ∀ a ∈ acts, a.foreign = false

/-- A handler is at work only for the line that the current connection waits for. -/
structure OneLine (w : World) : Prop where
  settled : ∀ (k : Nat) c, w.ipc.conns[k]? = some c → w.ipc.conn ≠ some k → c.Settled
  working : ∀ (j : Nat) t, w.daemon.tasks[j]? = some t → (∀ response, t.pc ≠ .done response) →
    ∃ k hd line request, waiting w.ipc k = some (line, request) ∧ w.handler k = some hd ∧
      hd.task = j

variable {pf : Platform} {w w' : World} {a : Act} {s₀ : CryptodState} {ipc : System} {i k : Nat}

theorem oneLine_new (s : CryptodState) : OneLine (new s) where
  settled k c hc := by cases hc
  working j t ht := by cases ht

/-- Only the current connection waits for a handler. -/
theorem OneLine.current {line : List Tagged} {request : Request} (h : OneLine w)
    (hwaiting : waiting w.ipc k = some (line, request)) : w.ipc.conn = some k := by
  obtain ⟨c, hc, hserver⟩ := waiting_eq_some.mp hwaiting
  by_contra hconn
  rcases (h.settled k c hc hconn).server with hnot | hnot
  · rw [hserver] at hnot
    cases hnot
  · rw [hserver] at hnot
    cases hnot

/-! ## The client's steps -/

section Client

variable {go : GoJson} {serde : Serde} {s s' : System} {t : CallState}

/-- The client leaves what the servers are at alone. -/
def KeepsServers (s s' : System) : Prop :=
  ∀ (k : Nat) c, s.conns[k]? = some c → ∃ c', s'.conns[k]? = some c' ∧ c'.server = c.server

theorem keepsServers_of_conns (h : s'.conns = s.conns) : KeepsServers s s' :=
  fun _ c hc => ⟨c, h ▸ hc, rfl⟩

theorem keepsServers_of_set {c c' : Conn} (hk : s.conns[k]? = some c)
    (hconns : s'.conns = s.conns.set k c') (hserver : c'.server = c.server) :
    KeepsServers s s' := by
  intro j d hd
  rw [hconns, System.getElem?_conns_set hk]
  by_cases hj : j = k
  · subst hj
    rw [hk] at hd
    cases hd
    exact ⟨c', if_pos rfl, hserver⟩
  · exact ⟨d, (if_neg hj).trans hd, rfl⟩

theorem keepsServers_dropConn (h : s'.conns = s.dropConn.conns) : KeepsServers s s' := by
  obtain heq | ⟨k, c, hk, heq⟩ := s.dropConn_conns
  · exact keepsServers_of_conns (h.trans heq)
  · exact keepsServers_of_set hk (h.trans heq) rfl

theorem push_server (b : Tagged) (c : Conn) : (c.push b).server = c.server := by
  unfold Conn.push
  split <;> rfl

theorem keepsServers_of_move (h : Client.Move go i t s s') : KeepsServers s s' := by
  cases h with
  | closed hpc hconn => exact keepsServers_dropConn rfl
  | writeFailed hpc => exact keepsServers_dropConn rfl
  | readFailed hpc => exact keepsServers_dropConn rfl
  | dialed hpc hcall hconn =>
    exact fun k c hc => ⟨c, getElem?_of_initial (List.prefix_append _ _) hc, rfl⟩
  | @wrote b rest k hpc hconn =>
    cases hk : s.conns[k]? with
    | none =>
      exact keepsServers_of_conns (List.modify_eq_self (List.getElem?_eq_none_iff.mp hk))
    | some c =>
      exact keepsServers_of_set hk (modify_eq_set_of_getElem? hk) (push_server _ c)
  | filled hpc hreader hc hto => exact keepsServers_of_set hc rfl rfl
  | _ => exact keepsServers_of_conns rfl

theorem settled_hangUp {c : Conn} (h : c.Settled) : c.hangUp.Settled := ⟨h.toServer_eq, h.server⟩

/-- The client gives up a connection only when it is settled. -/
theorem settled_of_move (hinv : System.Inv go serde s) (ht : s.calls[i]? = some t)
    (hfail : NoFailure s') (hmove : Client.Move go i t s s')
    (h : ∀ (k : Nat) c, s.conns[k]? = some c → s.conn ≠ some k → c.Settled) :
    ∀ (k : Nat) c, s'.conns[k]? = some c → s'.conn ≠ some k → c.Settled := by
  -- a call that fails behind the dial is excluded
  have hnot {e : ClientError}
      (hcalls : s'.calls = s.calls.set i { t with pc := .done [] (.failed e) })
      (he : ∀ message, e ≠ .dial message) : False := by
    obtain ⟨message, hmessage⟩ := hfail i t.call [] e (by
      rw [hcalls, System.getElem?_calls_set ht, if_pos rfl])
    exact he message hmessage
  cases hmove with
  | @closed k hpc hconn =>
    intro j c hc _
    obtain ⟨hmu, hidle⟩ := hinv.holder ht (by simp [hpc]) (by simp [hpc])
    unfold System.Serves at hidle
    rw [hpc] at hidle
    obtain ⟨hnone, -⟩ | ⟨k', d, hconn', -, hk, hquiet⟩ := hidle
    · rw [hnone] at hconn
      cases hconn
    · rw [hconn] at hconn'
      cases hconn'
      have hset : s.dropConn.conns = s.conns.set k d.hangUp := by
        simp only [System.dropConn, hconn]
        exact modify_eq_set_of_getElem? hk
      have hc : (s.conns.set k d.hangUp)[j]? = some c := hset ▸ hc
      rw [System.getElem?_conns_set hk] at hc
      split at hc
      · cases hc
        exact settled_hangUp hquiet.toSettled
      · rename_i hj
        exact h j c hc fun heq => hj (Option.some.inj (heq.symm.trans hconn))
  | writeFailed hpc => exact (hnot rfl (by simp)).elim
  | readFailed hpc => exact (hnot rfl (by simp)).elim
  | dialed hpc hcall hconn =>
    intro j c hc hne
    rcases getElem?_concat hc with hc | ⟨hj, -⟩
    · exact h j c hc (by simp [hconn])
    · exact absurd (congrArg some hj.symm) hne
  | @wrote b rest k hpc hconn =>
    intro j c hc hne
    have hjk : j ≠ k := fun hjk => hne (hjk ▸ hconn)
    have hc : (s.conns.modify k (Conn.push (i, b)))[j]? = some c := hc
    rw [List.getElem?_modify_ne _ _ (Ne.symm hjk)] at hc
    exact h j c hc hne
  | @filled r c b rest hpc hreader hc hto =>
    intro j d hd hne
    have hd : (s.conns.set r.conn { c with toClient := rest })[j]? = some d := hd
    rw [System.getElem?_conns_set hc] at hd
    split at hd
    · rename_i hj
      cases hd
      have hsettled := h r.conn c hc (hj ▸ hne)
      exact ⟨hsettled.toServer_eq, hsettled.server⟩
    · exact h j d hd hne
  | _ => exact h

end Client

/-! ## The steps of the world -/

theorem waiting_of_keepsServers {line : List Tagged} {request : Request}
    (h : KeepsServers w.ipc ipc) (hwaiting : waiting w.ipc k = some (line, request)) :
    waiting ipc k = some (line, request) := by
  obtain ⟨c, hc, hserver⟩ := waiting_eq_some.mp hwaiting
  obtain ⟨c', hc', hsame⟩ := h k c hc
  exact waiting_eq_some.mpr ⟨c', hc', hsame.trans hserver⟩

/-- Neither the daemon nor the records of the handlers change. -/
theorem OneLine.keep (h : OneLine w) (hkeeps : KeepsServers w.ipc w'.ipc)
    (hsettled : ∀ (k : Nat) c, w'.ipc.conns[k]? = some c → w'.ipc.conn ≠ some k → c.Settled)
    (hdaemon : w'.daemon = w.daemon) (hhandlings : w'.handlings = w.handlings) :
    OneLine w' where
  settled := hsettled
  working j t ht hopen := by
    rw [hdaemon] at ht
    obtain ⟨k, hd, line, request, hwaiting, hhandler, htask⟩ := h.working j t ht hopen
    refine ⟨k, hd, line, request, waiting_of_keepsServers hkeeps hwaiting, ?_, htask⟩
    unfold World.handler
    rw [hhandlings]
    exact hhandler

/-- The daemon answers no more than it was asked. -/
theorem OneLine.ran {elapsed : UInt64} {d : Daemon} {j : Nat} (h : OneLine w)
    (hstep : Pool.Step (Cryptod.daemon pf.crate) w.daemon (.run j elapsed) d) :
    OneLine { w with daemon := d } where
  settled := h.settled
  working i t ht hopen := by
    obtain ⟨u, sh', u', hu, hmove, rfl⟩ := run_cases hstep
    have ht : (w.daemon.tasks.set j u')[i]? = some t := ht
    rw [Pool.getElem?_set hu] at ht
    split at ht
    · rename_i hij
      subst hij
      exact h.working i u hu hmove.not_done
    · exact h.working i t ht hopen

/-- A line is taken up only when every handler has answered. -/
theorem OneLine.tookUp {line : List Tagged} {request : Request} (h : OneLine w)
    (hstep : System.Step pf.go pf.serde w.ipc (.server k .receive) ipc)
    (hwaiting : waiting ipc k = some (line, request)) :
    (∀ t ∈ w.daemon.tasks, ∃ response, t.pc = .done response) ∧
      OneLine { w.startHandler k line request with ipc := ipc } := by
  obtain ⟨c, log', c', hk, hserve, rfl⟩ := System.step_server hstep
  obtain ⟨c'', hc'', hserver⟩ := waiting_eq_some.mp hwaiting
  have hself : (w.ipc.conns.set k c')[k]? = some c' :=
    (System.getElem?_conns_set hk k).trans (if_pos rfl)
  rw [show ({ w.ipc with log := log', conns := w.ipc.conns.set k c' } : System).conns[k]? = some c'
    from hself] at hc''
  cases hc''
  have hconn : w.ipc.conn = some k := by
    by_contra hne
    have hsettled := ((Ipc.move_of_serve hserve).settled (h.settled k c hk hne)).1
    rcases hsettled.server with hnot | hnot
    · rw [hserver] at hnot
      cases hnot
    · rw [hserver] at hnot
      cases hnot
  have hreading : ∃ buf, c.server = .reading buf := by
    simp only [serveConnection] at hserve
    split at hserve
    · rename_i hreading _
      exact ⟨_, hreading⟩
    · rename_i hreading _
      exact ⟨_, hreading⟩
    · cases hserve
  have hdone : ∀ t ∈ w.daemon.tasks, ∃ response, t.pc = .done response := by
    intro t ht
    by_contra hnot
    obtain ⟨j, hj⟩ := List.getElem?_of_mem ht
    obtain ⟨k', hd, line', request', hwaiting', -, -⟩ :=
      h.working j t hj fun response hpc => hnot ⟨response, hpc⟩
    -- that handler would be the one the reading connection waits for
    have hk' := h.current hwaiting'
    rw [hconn] at hk'
    cases hk'
    obtain ⟨c₀, hc₀, hserver'⟩ := waiting_eq_some.mp hwaiting'
    rw [hk] at hc₀
    cases hc₀
    obtain ⟨buf, hreading⟩ := hreading
    rw [hreading] at hserver'
    cases hserver'
  refine ⟨hdone, ?_, ?_⟩
  · intro j d hd hne
    have hd : (w.ipc.conns.set k c')[j]? = some d := hd
    rw [System.getElem?_conns_set hk] at hd
    split at hd
    · rename_i hj
      exact absurd (hj ▸ hconn) hne
    · exact h.settled j d hd hne
  · intro j t ht hopen
    have ht : (w.daemon.tasks ++ [⟨request, .received⟩])[j]? = some t := ht
    rcases getElem?_concat ht with ht | ⟨rfl, -⟩
    · obtain ⟨response, hpc⟩ := hdone t (List.mem_of_getElem? ht)
      exact absurd hpc (hopen response)
    · exact ⟨k, ⟨k, w.daemon.tasks.length, line⟩, line, request, hwaiting,
        List.find?_cons_of_pos (by simp), rfl⟩

/-- Any other step of a server task that does not die. -/
theorem OneLine.served {x : ServerAct} (h : OneLine w)
    (hstep : System.Step pf.go pf.serde w.ipc (.server k x) ipc) (hdie : x ≠ .fail)
    (hrespond : ∀ response, x = .respond response → w.returned k response = true) :
    OneLine { w with ipc := ipc } := by
  obtain ⟨c, log', c', hk, hserve, rfl⟩ := System.step_server hstep
  constructor
  · intro j d hd hne
    have hd : (w.ipc.conns.set k c')[j]? = some d := hd
    rw [System.getElem?_conns_set hk] at hd
    split at hd
    · rename_i hj
      cases hd
      exact ((Ipc.move_of_serve hserve).settled (h.settled k c hk (hj ▸ hne))).1
    · exact h.settled j d hd hne
  · intro j t ht hopen
    obtain ⟨k', hd, line, request, hwaiting, hhandler, htask⟩ := h.working j t ht hopen
    refine ⟨k', hd, line, request, ?_, hhandler, htask⟩
    obtain ⟨d, hd', hserver⟩ := waiting_eq_some.mp hwaiting
    have hset : (w.ipc.conns.set k c')[k']? = if k' = k then some c' else w.ipc.conns[k']? :=
      System.getElem?_conns_set hk k'
    by_cases hkk : k' = k
    · subst hkk
      rw [hk] at hd'
      cases hd'
      rw [if_pos rfl] at hset
      refine waiting_eq_some.mpr ⟨c', hset, ?_⟩
      cases x with
      | receive => simp [serveConnection, hserver] at hserve
      | respond response =>
        -- the handler has returned, so it is not at work
        have hreturned := hrespond response rfl
        simp only [World.returned, hhandler, htask, ht, Option.map_some, beq_iff_eq,
          Option.some.injEq] at hreturned
        exact absurd hreturned (hopen response)
      | send => simp [serveConnection, hserver] at hserve
      | fail => exact absurd rfl hdie
      | cut m n =>
        cases hserve
        exact hserver
    · rw [if_neg hkk] at hset
      exact waiting_eq_some.mpr ⟨d, hset.trans hd', hserver⟩

theorem OneLine.move {acts : List Act} (hrun : Run (Step pf) (new s₀) acts w) (h : OneLine w)
    (hmove : Move pf w a w') (hfail : NoFailure w'.ipc) (honly : a.foreign = false) :
    OneLine w' ∧ (w'.daemon = w.daemon ∨
      ∃ x, When Lone (Pool.Step (Cryptod.daemon pf.crate)) w.daemon x w'.daemon) := by
  obtain ⟨xs, hipc⟩ := run_ipc hrun
  have hquiet (hconns : w'.ipc.conns = w.ipc.conns) (hconn : w'.ipc.conn = w.ipc.conn)
      (hdaemon : w'.daemon = w.daemon) (hhandlings : w'.handlings = w.handlings) :
      OneLine w' ∧ (w'.daemon = w.daemon ∨
        ∃ x, When Lone (Pool.Step (Cryptod.daemon pf.crate)) w.daemon x w'.daemon) := by
    refine ⟨h.keep (keepsServers_of_conns hconns) (fun k c hc hne => ?_) hdaemon hhandlings,
      .inl hdaemon⟩
    exact h.settled k c (hconns ▸ hc) (hconn ▸ hne)
  cases hmove with
  | posted => exact hquiet rfl rfl rfl rfl
  | refused hp hcall hanswer hbefore => exact hquiet rfl rfl rfl rfl
  | called hp hcall hanswer hbefore => exact hquiet rfl rfl rfl rfl
  | replied hp hcall hanswer ht => exact hquiet rfl rfl rfl rfl
  | started => exact hquiet rfl rfl rfl rfl
  | client hstep =>
    obtain ⟨t, ht, hcall⟩ := System.step_client hstep
    have hclient := Client.move_of_step hcall
    refine ⟨h.keep (keepsServers_of_move hclient) ?_ rfl rfl, .inl rfl⟩
    exact settled_of_move (System.run_inv hipc) ht hfail hclient h.settled
  | @tookUp k ipc line request hstep hwaiting =>
    obtain ⟨hdone, hone⟩ := h.tookUp hstep hwaiting
    exact ⟨hone, .inr ⟨.spawn request, ⟨fun _ _ t ht => hdone t ht, rfl⟩⟩⟩
  | @served k x ipc hstep hreceive hrespond =>
    refine ⟨h.served hstep ?_ hrespond, .inl rfl⟩
    rintro rfl
    cases honly
  | ran hstep =>
    exact ⟨h.ran hstep, .inr ⟨_, ⟨fun _ hact => (by cases hact), hstep⟩⟩⟩
  | other => cases honly

/-- A call that has failed has failed for good. -/
theorem noFailure_of_step (hmove : Move pf w a w') (hfail : NoFailure w'.ipc) :
    NoFailure w.ipc := by
  intro i call line e ht
  obtain hsame | ⟨x, hstep⟩ := hmove.ipc
  · exact hfail i call line e (hsame ▸ ht)
  · obtain ⟨t', ht', -, hdone⟩ := System.calls_step hstep ht
    rw [hdone line (.failed e) rfl] at ht'
    exact hfail i call line e ht'

/-- The daemon of an agent that is alone with it starts a handler only when every one before it has
answered. -/
theorem run_lone_from {acts₁ acts₂ : List Act} {w₁ : World}
    (hreach : Run (Step pf) (new s₀) acts₁ w₁) (hone₁ : OneLine w₁)
    (hrun : Run (Step pf) w₁ acts₂ w) (honly : OnlyAgent acts₂) (hfail : NoFailure w.ipc) :
    OneLine w ∧
      ∃ xs, Run (When Lone (Pool.Step (Cryptod.daemon pf.crate))) w₁.daemon xs w.daemon := by
  induction hrun with
  | nil => exact ⟨hone₁, [], .nil⟩
  | @snoc acts w w' a run last ih =>
    have hmove := move_of_step last
    obtain ⟨hone, xs, hlone⟩ := ih (fun b hb => honly b (List.mem_append_left _ hb))
      (noFailure_of_step hmove hfail)
    obtain ⟨hone', hdaemon⟩ := hone.move (hreach.append run) hmove hfail
      (honly a (List.mem_append_right _ List.mem_cons_self))
    refine ⟨hone', ?_⟩
    obtain hsame | ⟨x, hx⟩ := hdaemon
    · exact ⟨xs, hsame ▸ hlone⟩
    · exact ⟨_, hlone.snoc hx⟩

theorem run_lone {acts : List Act} (hrun : Run (Step pf) (new s₀) acts w) (honly : OnlyAgent acts)
    (hfail : NoFailure w.ipc) :
    OneLine w ∧ ∃ xs, Run (When Lone (Pool.Step (Cryptod.daemon pf.crate))) (idle s₀) xs w.daemon :=
  run_lone_from .nil (oneLine_new s₀) hrun honly hfail

/-! ## The order of the calls -/

/-- A handler that is recorded later is a later task of the daemon. -/
theorem task_le_of_later {acts : List Act} (hrun : Run (Step pf) w acts w') :
    w.daemon.tasks.length ≤ w'.daemon.tasks.length ∧
      ∀ hd ∈ w'.handlings, hd ∈ w.handlings ∨ w.daemon.tasks.length ≤ hd.task := by
  induction hrun with
  | nil => exact ⟨Nat.le_refl _, fun hd h => .inl h⟩
  | @snoc acts u u' a run last ih =>
    obtain ⟨hlen, hall⟩ := ih
    have hspawn (request : Request) :
        u.daemon.tasks.length ≤ (u.spawn request).daemon.tasks.length := by
      simp [World.spawn]
    cases move_of_step last with
    | tookUp hstep hwaiting =>
      refine ⟨Nat.le_trans hlen (hspawn _), fun hd h => ?_⟩
      rcases List.mem_cons.mp h with rfl | h
      · exact .inr hlen
      · exact hall hd h
    | other => exact ⟨Nat.le_trans hlen (hspawn _), hall⟩
    | ran hstep =>
      obtain ⟨t, sh', t', -, -, rfl⟩ := run_cases hstep
      refine ⟨?_, hall⟩
      show _ ≤ (u.daemon.tasks.set _ t').length
      rw [List.length_set]
      exact hlen
    | _ => exact ⟨hlen, hall⟩

/-- The handler of a call that was made later is a later task of the daemon. -/
theorem task_lt_of_later {acts acts' : List Act} (hrun : Run (Step pf) (new s₀) acts w)
    (hrun' : Run (Step pf) w acts' w') {hd hd' : Handling} (hhd : hd ∈ w.handlings)
    (hhd' : hd' ∈ w'.handlings) (hi : mentions i hd'.line = true)
    (hlate : w.ipc.calls.length ≤ i) : hd.task < hd'.task := by
  obtain hold | hle := (task_le_of_later hrun').2 hd' hhd'
  · have hlt := lt_calls_of_mentions hrun hold hi
    omega
  · obtain ⟨t, ht, -⟩ := (run_linked hrun).records hd hhd
    exact Nat.lt_of_lt_of_le (List.getElem?_eq_some_iff.mp ht).1 hle

/-- To an agent that is alone with its daemon the client is the sequential daemon.  As long as no
call fails but in dialling, whatever goroutines call whatever methods: the daemon goes through a run
of exchanges one at a time, every call that comes back was refused as no request or returns the
answer of one exchange to a request with its arguments, and a call made after another has come back
is answered by a later exchange. -/
theorem agent_sequential (pf : Platform) (s₀ : CryptodState) (acts : List Act) (w : World)
    (hrun : Run (Step pf.decoding) (new s₀) acts w) (honly : OnlyAgent acts)
    (hfail : NoFailure w.ipc) :
    ∃ xs s, Run (Handles pf.crate) s₀ xs s ∧
      ((∀ t ∈ w.daemon.tasks, ∃ response, t.pc = .done response) →
        w.daemon.tasks = xs.map Exchange.task ∧ w.daemon.shared.state = s) ∧
      (∀ i req line r, w.ipc.calls[i]? = some ⟨.request req, .done line r⟩ → line ≠ [] →
        Refused w i req r ∨ ∃ hd x, hd ∈ w.handlings ∧ mentions i hd.line = true ∧
          xs[hd.task]? = some x ∧ Means req x.request ∧ r = delivered req x.response) ∧
      ∀ acts₁ w₁ acts₂, Run (Step pf.decoding) (new s₀) acts₁ w₁ →
        Run (Step pf.decoding) w₁ acts₂ w → ∀ hd ∈ w₁.handlings, ∀ hd' ∈ w.handlings, ∀ i,
          mentions i hd'.line = true → w₁.ipc.calls.length ≤ i → hd.task < hd'.task := by
  obtain ⟨-, ys, hlone⟩ := run_lone hrun honly hfail
  obtain ⟨xs, s, hseq, hstage, hqueue⟩ := lone_sequential hlone
  refine ⟨xs, s, hseq, fun hdone => ?_, fun i req line r ht hline => ?_, ?_⟩
  · refine ⟨?_, (stage_iff_of_done hdone).mp hstage⟩
    obtain htasks | ⟨t, hnot, htasks⟩ := hqueue
    · exact htasks
    · obtain ⟨response, hpc⟩ := hdone t (by simp [htasks])
      exact absurd hpc (hnot response)
  · obtain hrefused | ⟨hd, request, response, hdelivered⟩ := returned_of_line hrun ht hline
    · exact .inl hrefused
    · right
      have htask := hdelivered.answered
      -- a task that has answered is one of the exchanges
      have hx : (xs.map Exchange.task)[hd.task]? = some ⟨request, .done response⟩ := by
        obtain htasks | ⟨t, hnot, htasks⟩ := hqueue
        · rw [← htasks]
          exact htask
        · rw [htasks] at htask
          rcases getElem?_concat htask with h | ⟨-, h⟩
          · exact h
          · exact absurd (congrArg Task.pc h.symm) (hnot response)
      rw [List.getElem?_map] at hx
      obtain ⟨x, hexchange, htaskOf⟩ := Option.map_eq_some_iff.mp hx
      cases htaskOf
      refine ⟨hd, x, hdelivered.handled, ?_, hexchange, hdelivered.means, hdelivered.returned⟩
      rw [hdelivered.own]
      exact mentions_tagged i _ (by simp [Ipc.requestLine])
  · intro acts₁ w₁ acts₂ hrun₁ hrun₂ hd hhd hd' hhd' i hi hlate
    exact task_lt_of_later hrun₁ hrun₂ hhd hhd' hi hlate

/-- The one call of the run comes back with the answer of the one exchange. -/
theorem agent_sequential_sealed : ∃ xs s, Run (Handles Gcm.kat) Cryptod.Kat.rotated xs s ∧
    (∃ x, xs[0]? = some x ∧ Means Kat.sealCall x.request ∧
      Returned.bytes Gcm.Kat.frame256 = delivered Kat.sealCall x.response) := by
  obtain ⟨xs, s, hseq, -, hcalls, -⟩ := agent_sequential Kat.platform Cryptod.Kat.rotated
    Kat.sealActs Kat.sealedWorld Kat.sealedWorld_run
    (by
      unfold OnlyAgent
      decide +kernel)
    (by
      intro i call line e ht
      have hmem := List.mem_of_getElem? ht
      simp [Kat.sealedWorld] at hmem)
  refine ⟨xs, s, hseq, ?_⟩
  obtain hrefused | ⟨hd, x, hhd, -, hx, hmeans, hreturned⟩ := hcalls 0 Kat.sealCall Kat.frameLine
    (.bytes Gcm.Kat.frame256) rfl (by decide)
  · obtain ⟨message, hmessage⟩ := hrefused.returned
    cases hmessage
  · rw [List.mem_singleton.mp hhd] at hx
    exact ⟨x, hx, hmeans, hreturned⟩

end Node

end SmartSfp
