import SmartSfp.Node.World

/-!
# Handlers — which handler of the daemon answers which line

A line that was answered was refused as no request, or its answer is the one the handler started for
it has returned.
-/

namespace SmartSfp

namespace Node

open Lib Ipc Cryptod Httpapi World

variable {pf : Platform} {w w' : World} {a : Act} {s₀ : CryptodState} {ipc : System} {k : Nat}

/-- A task keeps its request, and once it is answered it stays as it is. -/
theorem task_step {crate : Gcm.Crate} {d d' : Daemon} {x : Pool.Act Request UInt64} {j : Nat}
    {t : Task} (h : Pool.Step (Cryptod.daemon crate) d x d') (ht : d.tasks[j]? = some t) :
    ∃ t', d'.tasks[j]? = some t' ∧ t'.request = t.request ∧
      ∀ response, t.pc = .done response → t' = t := by
  obtain ⟨request, -, rfl⟩ | ⟨i, elapsed, u, sh', u', -, hu, hmove, rfl⟩ := daemon_cases h
  · exact ⟨t, getElem?_of_initial (List.prefix_append _ _) ht, rfl, fun _ _ => rfl⟩
  · by_cases hij : j = i
    · subst hij
      rw [hu] at ht
      cases ht
      refine ⟨u', (Pool.getElem?_set hu j).trans (if_pos rfl), hmove.request_eq, ?_⟩
      intro response hpc
      cases hmove with
      | status hmove => cases hmove <;> cases hpc
      | _ => cases hpc
    · exact ⟨t, (Pool.getElem?_set hu j).trans ((if_neg hij).trans ht), rfl, fun _ _ => rfl⟩

/-- The handler started for a line has returned the response. -/
def Answers (w : World) (line : List Tagged) (response : Response) : Prop :=
  ∃ hd ∈ w.handlings, hd.line = line ∧
    ∃ t, w.daemon.tasks[hd.task]? = some t ∧ t.pc = .done response

/-- What ties the server's side of the bytes to the handlers of the daemon. -/
structure Linked (pf : Platform) (w : World) : Prop where
  waits : ∀ k line request, waiting w.ipc k = some (line, request) →
    ∃ hd, w.handler k = some hd ∧ hd.line = line
  records : ∀ hd ∈ w.handlings, ∃ t, w.daemon.tasks[hd.task]? = some t ∧
    pf.serde.decode hd.line = some t.request
  executions : ∀ i, w.ipc.executions i = w.handlings.countP fun hd => mentions i hd.line
  answers : ∀ x ∈ w.ipc.log.answered,
    (pf.serde.decode x.line = none ∧ ∃ message, x.response = .error 400 message) ∨
      Answers w x.line x.response

theorem linked_new (s : CryptodState) : Linked pf (new s) where
  waits k line request h := by cases h
  records hd hhd := absurd hhd List.not_mem_nil
  executions i := rfl
  answers x hx := absurd hx List.not_mem_nil

/-! ## The steps -/

theorem waiting_eq_some {line : List Tagged} {request : Request} :
    waiting ipc k = some (line, request) ↔
      ∃ c, ipc.conns[k]? = some c ∧ c.server = .handling line request := by
  constructor
  · intro h
    unfold waiting at h
    split at h
    · rename_i c hc
      split at h
      · rename_i hserver
        cases h
        exact ⟨c, hc, hserver⟩
      · cases h
    · cases h
  · rintro ⟨c, hc, hserver⟩
    simp only [waiting, hc, hserver]

/-- The handlers of the daemon go on, or new ones start. -/
theorem Linked.daemon {d : Daemon} {x : Pool.Act Request UInt64} (h : Linked pf w)
    (hstep : Pool.Step (Cryptod.daemon pf.crate) w.daemon x d) :
    Linked pf { w with daemon := d } where
  waits := h.waits
  records hd hhd := by
    obtain ⟨t, ht, hdecode⟩ := h.records hd hhd
    obtain ⟨t', ht', hrequest, -⟩ := task_step hstep ht
    exact ⟨t', ht', hrequest ▸ hdecode⟩
  executions := h.executions
  answers x hx := by
    refine (h.answers x hx).imp_right ?_
    rintro ⟨hd, hhd, hline, t, ht, hpc⟩
    obtain ⟨t', ht', -, hdone⟩ := task_step hstep ht
    exact ⟨hd, hhd, hline, t', ht', (hdone _ hpc).symm ▸ hpc⟩

theorem Linked.waits_of_sameHandlers {line : List Tagged} {request : Request} (h : Linked pf w)
    (hsame : SameHandlers w.ipc ipc) (hwaiting : waiting ipc k = some (line, request)) :
    ∃ hd, w.handler k = some hd ∧ hd.line = line := by
  obtain ⟨c', hc', hserver⟩ := waiting_eq_some.mp hwaiting
  exact h.waits k line request (waiting_eq_some.mpr (hsame k c' line request hc' hserver))

/-- Neither the log nor what connections wait for changes. -/
theorem Linked.quiet (h : Linked pf w) (hlog : ipc.log = w.ipc.log)
    (hsame : SameHandlers w.ipc ipc) : Linked pf { w with ipc := ipc } where
  waits _ _ _ hwaiting := h.waits_of_sameHandlers hsame hwaiting
  records := h.records
  executions i := by
    rw [← h.executions i]
    simp only [System.executions, hlog]
  answers x hx := h.answers x (hlog ▸ hx)

theorem Linked.tookUp {line : List Tagged} {request : Request} (h : Linked pf w)
    (hstep : System.Step pf.go pf.serde w.ipc (.server k .receive) ipc)
    (hwaiting : waiting ipc k = some (line, request)) :
    Linked pf { w.startHandler k line request with ipc := ipc } := by
  obtain ⟨c, log', c', hk, hserve, rfl⟩ := System.step_server hstep
  obtain ⟨c'', hc'', hserver⟩ := waiting_eq_some.mp hwaiting
  rw [System.getElem?_conns_set hk, if_pos rfl] at hc''
  cases hc''
  have hspawn : Linked pf (w.spawn request) :=
    h.daemon (show Pool.Step (Cryptod.daemon pf.crate) w.daemon (.spawn request) _ from rfl)
  have htask : (w.spawn request).daemon.tasks[w.daemon.tasks.length]? =
      some ⟨request, .received⟩ := List.getElem?_concat_length ..
  cases logMove_of_serve hserve with
  | started hdecode hserver' =>
    rw [hserver] at hserver'
    cases hserver'
    refine ⟨?_, ?_, ?_, ?_⟩
    · -- the new record stands before those of earlier lines of the connection
      intro k' line' request' hwaiting'
      by_cases hkk : k = k'
      · subst hkk
        rw [hwaiting] at hwaiting'
        cases hwaiting'
        exact ⟨⟨k, w.daemon.tasks.length, line⟩, List.find?_cons_of_pos (by simp), rfl⟩
      · obtain ⟨d, hd, hdserver⟩ := waiting_eq_some.mp hwaiting'
        rw [System.getElem?_conns_set hk, if_neg (Ne.symm hkk)] at hd
        obtain ⟨hd', hhandler, hline⟩ :=
          h.waits k' line' request' (waiting_eq_some.mpr ⟨d, hd, hdserver⟩)
        exact ⟨hd', (List.find?_cons_of_neg (by simpa using hkk)).trans hhandler, hline⟩
    · intro hd hhd
      rcases List.mem_cons.mp hhd with rfl | hhd
      · exact ⟨_, htask, hdecode⟩
      · exact hspawn.records hd hhd
    · intro i
      have hold := h.executions i
      simp only [System.executions, startHandler, List.countP_append, List.countP_cons,
        List.countP_nil, Nat.zero_add] at hold ⊢
      rw [hold]
    · intro x hx
      refine (hspawn.answers x hx).imp_right ?_
      rintro ⟨hd, hhd, hline, ht⟩
      exact ⟨hd, List.mem_cons_of_mem _ hhd, hline, ht⟩
  | refused hdecode hserver' hheld =>
    rw [hserver] at hserver'
    cases hserver'
  | quiet hact hserver' => exact absurd rfl (hserver' _ _ hserver).1

theorem Linked.served {x : ServerAct} (h : Linked pf w)
    (hstep : System.Step pf.go pf.serde w.ipc (.server k x) ipc)
    (hreceive : x = .receive → waiting ipc k = none)
    (hrespond : ∀ response, x = .respond response → w.returned k response = true) :
    Linked pf { w with ipc := ipc } := by
  obtain ⟨c, log', c', hk, hserve, rfl⟩ := System.step_server hstep
  have hself : ({ w.ipc with log := log', conns := w.ipc.conns.set k c' } : System).conns[k]? =
      some c' := (System.getElem?_conns_set hk k).trans (if_pos rfl)
  -- the log grows by an answer, so only `answers` has something new to say
  have hgrow {y : Ipc.Exchange}
      (hlog : log' = { w.ipc.log with answered := w.ipc.log.answered ++ [y] })
      (hserver : ∀ line request, c'.server ≠ .handling line request)
      (hy : (pf.serde.decode y.line = none ∧ ∃ message, y.response = .error 400 message) ∨
        Answers w y.line y.response) :
      Linked pf { w with ipc := { w.ipc with log := log', conns := w.ipc.conns.set k c' } } := by
    subst hlog
    refine ⟨fun _ _ _ hwaiting => ?_, h.records, h.executions, fun x hx => ?_⟩
    · exact h.waits_of_sameHandlers (sameHandlers_of_set hk rfl
        fun line request hd => absurd hd (hserver line request)) hwaiting
    · rcases List.mem_append.mp hx with hx | hx
      · exact h.answers x hx
      · rw [List.mem_singleton.mp hx]
        exact hy
  cases logMove_of_serve hserve with
  | started hdecode hserver =>
    have hnone := hreceive rfl
    rw [waiting_eq_some.mpr ⟨c', hself, hserver⟩] at hnone
    cases hnone
  | refused hdecode hserver hheld =>
    refine hgrow rfl (fun _ _ hd => ?_) (.inl ⟨hdecode, _, rfl⟩)
    rw [hserver] at hd
    cases hd
  | @responded line rest request response _ hserver hserver' =>
    refine hgrow rfl (fun _ _ hd => ?_) (.inr ?_)
    · rw [hserver'] at hd
      cases hd
    · obtain ⟨hd, hhandler, hline⟩ := h.waits k line request (waiting_eq_some.mpr ⟨c, hk, hserver⟩)
      have hreturned := hrespond response rfl
      simp only [returned, hhandler, beq_iff_eq] at hreturned
      obtain ⟨t, ht, hpc⟩ := Option.map_eq_some_iff.mp hreturned
      exact ⟨hd, List.mem_of_find?_eq_some hhandler, hline, t, ht, hpc⟩
  | quiet hact hserver =>
    exact h.quiet rfl
      (sameHandlers_of_set hk rfl fun line request hd => (hserver line request hd).2)

theorem Linked.move (h : Linked pf w) (hmove : Move pf w a w') : Linked pf w' := by
  cases hmove with
  | posted => exact ⟨h.waits, h.records, h.executions, h.answers⟩
  | refused hp hcall hanswer hbefore => exact ⟨h.waits, h.records, h.executions, h.answers⟩
  | called hp hcall hanswer hbefore => exact ⟨h.waits, h.records, h.executions, h.answers⟩
  | replied hp hcall hanswer ht => exact ⟨h.waits, h.records, h.executions, h.answers⟩
  | started => exact ⟨h.waits, h.records, h.executions, h.answers⟩
  | client hstep =>
    obtain ⟨t, ht, hcall⟩ := System.step_client hstep
    obtain ⟨hlog, hsame⟩ := (Client.move_of_step hcall).sameHandlers
    exact h.quiet hlog hsame
  | tookUp hstep hwaiting => exact h.tookUp hstep hwaiting
  | served hstep hreceive hrespond => exact h.served hstep hreceive hrespond
  | ran hstep => exact h.daemon hstep
  | @other request =>
    have hspawn : Pool.Step (Cryptod.daemon pf.crate) w.daemon (.spawn request)
        (w.spawn request).daemon := rfl
    exact h.daemon hspawn

theorem run_linked {acts : List Act} (h : Run (Step pf) (new s₀) acts w) : Linked pf w :=
  h.invariant (linked_new s₀) fun _ _ _ hlinked hstep => hlinked.move (move_of_step hstep)

end Node

end SmartSfp
