import SmartSfp.Ipc.Client
import SmartSfp.Ipc.Phase

/-!
# Invariant — where the connection is while the mutex is free or held

The client gives up its connection on every path that may leave something unread on it.  So while
the mutex is free the connection is quiet, and while a call holds it the connection is in a phase of
that call's request: the next line on the stream can only be its answer.
-/

namespace SmartSfp

namespace Ipc

open Lib Conn

variable {go : GoJson} {serde : Serde} {s s' s₁ : System} {i j k : Nat} {t : CallState}
  {req : ClientRequest} {c c' : Conn} {log' : Log}

theorem modify_eq_set_of_getElem? {α : Type} {l : List α} {f : α → α} {a : α}
    (h : l[i]? = some a) : l.modify i f = l.set i (f a) := by
  refine List.ext_getElem? fun j => ?_
  by_cases hj : i = j
  · subst hj
    rw [List.getElem?_modify_eq, h, List.getElem?_set_self (List.getElem?_eq_some_iff.mp h).1]
    rfl
  · rw [List.getElem?_modify_ne _ _ hj, List.getElem?_set_ne hj]

theorem getElem?_concat {α : Type} {l : List α} {a b : α} (h : (l ++ [a])[i]? = some b) :
    l[i]? = some b ∨ i = l.length ∧ b = a := by
  rw [List.getElem?_append] at h
  split at h
  · exact .inl h
  · obtain ⟨hi, hb⟩ := List.getElem?_eq_some_iff.mp h
    simp only [List.length_singleton] at hi
    refine .inr ⟨by omega, ?_⟩
    simpa [show i - l.length = 0 by omega] using h.symm

namespace System

/-- No connection, or a quiet one with nothing buffered. -/
def Idle (s : System) : Prop :=
  (s.conn = none ∧ s.reader = none) ∨
    ∃ k c, s.conn = some k ∧ s.reader = some ⟨k, []⟩ ∧ s.conns[k]? = some c ∧ c.Quiet

/-- The connection is in a phase of the request of call `i`, with `rest` still to be written. -/
def Busy (go : GoJson) (serde : Serde) (s : System) (i : Nat) (req : ClientRequest)
    (rest : Octets) : Prop :=
  ∃ k c buf, s.conn = some k ∧ s.reader = some ⟨k, buf⟩ ∧ s.conns[k]? = some c ∧
    Phase serde s.log.answered (tagged i (go.requestLine req)) (tagged i rest)
      (buf ++ c.toClient) c

/-- Where the connection is for the call that holds the mutex. -/
def Serves (go : GoJson) (serde : Serde) (s : System) (i : Nat) (t : CallState) : Prop :=
  match t.pc, t.call with
  | .locked, _ => s.Idle
  | .writing rest, .request req => Busy go serde s i req rest
  | .reading, .request req => Busy go serde s i req []
  | _, _ => False

/-- A call read all of an answer to its own request, and returned what it makes of it. -/
def Paired (go : GoJson) (serde : Serde) (s : System) (i : Nat) (call : Call)
    (line : List Tagged) (r : Returned) : Prop :=
  ∃ req n response, call = .request req ∧
    s.log.answered[n]? = some ⟨tagged i (go.requestLine req), response⟩ ∧
    line = tagged n (serde.responseLine response) ∧
    r = Client.reply go req (serde.responseLine response)

structure Inv (go : GoJson) (serde : Serde) (s : System) : Prop where
  orderly : ∀ c ∈ s.conns, c.Orderly
  idle : s.mu = none → s.Idle
  serves : ∀ i, s.mu = some i → ∃ t, s.calls[i]? = some t ∧ Serves go serde s i t
  outside : ∀ i t, s.calls[i]? = some t → s.mu ≠ some i →
    t.pc = .waiting ∨ ∃ line r, t.pc = .done line r
  paired : ∀ i t line r, s.calls[i]? = some t → t.pc = .done line r → r.FromServer →
    Paired go serde s i t.call line r

theorem inv_new (go : GoJson) (serde : Serde) : Inv go serde new where
  orderly c hc := absurd hc List.not_mem_nil
  idle _ := .inl ⟨rfl, rfl⟩
  serves i hi := by cases hi
  outside i t ht := by cases ht
  paired i t line r ht := by cases ht

theorem isLine_request (go : GoJson) (i : Nat) (req : ClientRequest) :
    IsLine isNewline (tagged i (go.requestLine req)) :=
  isLine_tagged i (go.newline_not_mem req)

theorem ofCall_request (go : GoJson) (i : Nat) (req : ClientRequest) :
    OfCall i (tagged i (go.requestLine req)) := by
  refine ⟨fun b hb => ?_, (isLine_request go i req).partLine⟩
  obtain ⟨a, -, rfl⟩ := List.mem_map.mp hb
  rfl

/-! ## The server's steps -/

theorem getElem?_conns_set (hk : s.conns[k]? = some c) (j : Nat) :
    (s.conns.set k c')[j]? = if j = k then some c' else s.conns[j]? :=
  Pool.getElem?_set (p := ⟨(), s.conns⟩) hk j

theorem Idle.server (h : s.Idle) (hk : s.conns[k]? = some c)
    (hmove : ServerMove serde s.log c log' c') :
    Idle { s with log := log', conns := s.conns.set k c' } := by
  obtain hnone | ⟨k', d, hconn, hreader, hd, hquiet⟩ := h
  · exact .inl hnone
  · by_cases heq : k' = k
    · subst heq
      rw [hk] at hd
      cases hd
      exact .inr ⟨k', c', hconn, hreader, (getElem?_conns_set hk k').trans (if_pos rfl),
        hmove.quiet hquiet⟩
    · exact .inr ⟨k', d, hconn, hreader,
        (getElem?_conns_set hk k').trans ((if_neg heq).trans hd), hquiet⟩

theorem Busy.server {rest : Octets} (h : Busy go serde s i req rest) (hk : s.conns[k]? = some c)
    (hmove : ServerMove serde s.log c log' c') :
    Busy go serde { s with log := log', conns := s.conns.set k c' } i req rest := by
  obtain ⟨k', d, buf, hconn, hreader, hd, hphase⟩ := h
  by_cases heq : k' = k
  · subst heq
    rw [hk] at hd
    cases hd
    exact ⟨k', c', buf, hconn, hreader, (getElem?_conns_set hk k').trans (if_pos rfl),
      hphase.step hmove (isLine_request go i req)⟩
  · exact ⟨k', d, buf, hconn, hreader, (getElem?_conns_set hk k').trans ((if_neg heq).trans hd),
      hphase.mono hmove.log_initial⟩

theorem Inv.server (h : Inv go serde s) (hk : s.conns[k]? = some c)
    (hmove : ServerMove serde s.log c log' c') :
    Inv go serde { s with log := log', conns := s.conns.set k c' } where
  orderly d hd := by
    rcases List.mem_or_eq_of_mem_set hd with hd | rfl
    · exact h.orderly d hd
    · exact hmove.orderly (h.orderly c (List.mem_of_getElem? hk))
  idle hmu := (h.idle hmu).server hk hmove
  serves i hi := by
    obtain ⟨⟨call, pc⟩, ht, hserves⟩ := h.serves i hi
    refine ⟨⟨call, pc⟩, ht, ?_⟩
    cases pc with
    | locked => exact Idle.server hserves hk hmove
    | writing rest =>
      cases call with
      | close => exact hserves
      | request req => exact Busy.server hserves hk hmove
    | reading =>
      cases call with
      | close => exact hserves
      | request req => exact Busy.server hserves hk hmove
    | _ => exact hserves
  outside := h.outside
  paired i t line r ht hpc hr := by
    obtain ⟨req, n, response, hcall, hanswer, hline, hret⟩ := h.paired i t line r ht hpc hr
    exact ⟨req, n, response, hcall, getElem?_of_initial hmove.log_initial hanswer, hline, hret⟩

/-! ## The client's steps -/

theorem Inv.holder (h : Inv go serde s) (ht : s.calls[i]? = some t) (hwaiting : t.pc ≠ .waiting)
    (hdone : ∀ line r, t.pc ≠ .done line r) : s.mu = some i ∧ Serves go serde s i t := by
  have hmu : s.mu = some i := by
    by_contra hmu
    obtain hpc | ⟨line, r, hpc⟩ := h.outside i t ht hmu
    · exact hwaiting hpc
    · exact hdone line r hpc
  obtain ⟨t', ht', hserves⟩ := h.serves i hmu
  rw [ht] at ht'
  cases ht'
  exact ⟨hmu, hserves⟩

/-- A call that writes is a request, and its connection is in a phase of it. -/
theorem Inv.writer {call : Call} {rest : Octets} (h : Inv go serde s)
    (ht : s.calls[i]? = some ⟨call, .writing rest⟩) (hconn : s.conn = some k) :
    s.mu = some i ∧ ∃ req c buf, call = .request req ∧ s.reader = some ⟨k, buf⟩ ∧
      s.conns[k]? = some c ∧ Phase serde s.log.answered (tagged i (go.requestLine req))
        (tagged i rest) (buf ++ c.toClient) c := by
  obtain ⟨hmu, hserves⟩ := h.holder ht (by simp) (by simp)
  cases call with
  | close => exact hserves.elim
  | request req =>
    obtain ⟨k', c, buf, hconn', hreader, hk, hphase⟩ := hserves
    rw [hconn] at hconn'
    cases hconn'
    exact ⟨hmu, req, c, buf, rfl, hreader, hk, hphase⟩

theorem getElem?_calls_set (ht : s.calls[i]? = some t) (t' : CallState) (j : Nat) :
    (s.calls.set i t')[j]? = if j = i then some t' else s.calls[j]? :=
  Pool.getElem?_set (p := ⟨(), s.calls⟩) ht j

theorem goto_self {pc : CallPc} (ht : s.calls[i]? = some t) (hpc : t.pc = pc) :
    s.goto i t pc = s := by
  subst hpc
  obtain ⟨hi, rfl⟩ := List.getElem?_eq_some_iff.mp ht
  change { s with calls := s.calls.set i s.calls[i] } = s
  rw [List.set_getElem_self]

/-- A call that holds the mutex goes on. -/
theorem Inv.goto {pc : CallPc} (h : Inv go serde s) (ht : s.calls[i]? = some t)
    (hmu : s.mu = some i) (hmu₁ : s₁.mu = s.mu) (hcalls : s₁.calls = s.calls)
    (hlog : s₁.log = s.log) (horderly : ∀ c ∈ s₁.conns, c.Orderly)
    (hserves : Serves go serde s₁ i { t with pc := pc }) : Inv go serde (s₁.goto i t pc) where
  orderly := horderly
  idle hnone := by
    have hnone' := hmu₁.symm.trans hnone
    rw [hmu] at hnone'
    cases hnone'
  serves j hj := by
    have hj' := hmu₁.symm.trans hj
    rw [hmu] at hj'
    cases hj'
    refine ⟨{ t with pc := pc }, ?_, hserves⟩
    rw [System.goto, hcalls, getElem?_calls_set ht, if_pos rfl]
  outside j u hu hj := by
    have hji : j ≠ i := by
      rintro rfl
      exact hj (hmu₁.trans hmu)
    rw [System.goto, hcalls, getElem?_calls_set ht, if_neg hji] at hu
    exact h.outside j u hu fun hj' => hj (hmu₁.trans hj')
  paired j u line r hu hpc hr := by
    have hji : j ≠ i := by
      rintro rfl
      rw [System.goto, hcalls, getElem?_calls_set ht, if_pos rfl] at hu
      cases hu
      simp only at hpc
      rw [hpc] at hserves
      exact hserves
    rw [System.goto, hcalls, getElem?_calls_set ht, if_neg hji] at hu
    obtain ⟨req, n, response, hcall, hanswer, hrest⟩ := h.paired j u line r hu hpc hr
    exact ⟨req, n, response, hcall, (congrArg (·.answered[n]?) hlog).trans hanswer, hrest⟩

/-- A call that holds the mutex returns. -/
theorem Inv.ret {line : List Tagged} {r : Returned} (h : Inv go serde s)
    (ht : s.calls[i]? = some t) (hmu : s.mu = some i) (hcalls : s₁.calls = s.calls)
    (hlog : s₁.log = s.log) (horderly : ∀ c ∈ s₁.conns, c.Orderly) (hidle : s₁.Idle)
    (hpaired : r.FromServer → Paired go serde s i t.call line r) :
    Inv go serde (s₁.ret i t line r) where
  orderly := horderly
  idle _ := hidle
  serves j hj := by cases hj
  outside j u hu _ := by
    by_cases hji : j = i
    · subst hji
      rw [System.ret, System.goto, hcalls, getElem?_calls_set ht, if_pos rfl] at hu
      cases hu
      exact .inr ⟨line, r, rfl⟩
    · rw [System.ret, System.goto, hcalls, getElem?_calls_set ht, if_neg hji] at hu
      refine h.outside j u hu fun hj => hji ?_
      rw [hmu] at hj
      exact (Option.some.inj hj).symm
  paired j u line' r' hu hpc hr := by
    have hkeep : Paired go serde s j u.call line' r' →
        Paired go serde (s₁.ret i t line r) j u.call line' r' := by
      rintro ⟨req, n, response, hcall, hanswer, hrest⟩
      exact ⟨req, n, response, hcall, (congrArg (·.answered[n]?) hlog).trans hanswer, hrest⟩
    apply hkeep
    by_cases hji : j = i
    · subst hji
      rw [System.ret, System.goto, hcalls, getElem?_calls_set ht, if_pos rfl] at hu
      cases hu
      cases hpc
      exact hpaired hr
    · rw [System.ret, System.goto, hcalls, getElem?_calls_set ht, if_neg hji] at hu
      exact h.paired j u line' r' hu hpc hr

theorem Inv.start (h : Inv go serde s) (call : Call) :
    Inv go serde { s with calls := s.calls ++ [⟨call, .waiting⟩] } where
  orderly := h.orderly
  idle := h.idle
  serves i hi := by
    obtain ⟨t, ht, hserves⟩ := h.serves i hi
    exact ⟨t, getElem?_of_initial (List.prefix_append _ _) ht, hserves⟩
  outside i t ht hi := by
    rcases getElem?_concat ht with ht | ⟨-, rfl⟩
    · exact h.outside i t ht hi
    · exact .inl rfl
  paired i t line r ht hpc hr := by
    rcases getElem?_concat ht with ht | ⟨-, rfl⟩
    · exact h.paired i t line r ht hpc hr
    · cases hpc

theorem Inv.lock (h : Inv go serde s) (ht : s.calls[i]? = some t) (hmu : s.mu = none) :
    Inv go serde { s.goto i t .locked with mu := some i } where
  orderly := h.orderly
  idle hnone := by cases hnone
  serves j hj := by
    cases hj
    exact ⟨{ t with pc := .locked }, (getElem?_calls_set ht _ i).trans (if_pos rfl), h.idle hmu⟩
  outside j u hu hj := by
    have hji : j ≠ i := fun hji => hj (congrArg some hji.symm)
    rw [System.goto, getElem?_calls_set ht, if_neg hji] at hu
    exact h.outside j u hu (by rw [hmu]; exact fun hnone => by cases hnone)
  paired j u line r hu hpc' hr := by
    rw [System.goto, getElem?_calls_set ht] at hu
    split at hu
    · cases hu
      cases hpc'
    · exact h.paired j u line r hu hpc' hr

theorem dropConn_conns (s : System) : s.dropConn.conns = s.conns ∨
    ∃ k c, s.conns[k]? = some c ∧ s.dropConn.conns = s.conns.set k c.hangUp := by
  unfold dropConn
  cases s.conn with
  | none => exact .inl rfl
  | some k =>
    cases hk : s.conns[k]? with
    | none => exact .inl (List.modify_eq_self (List.getElem?_eq_none_iff.mp hk))
    | some c => exact .inr ⟨k, c, hk, modify_eq_set_of_getElem? hk⟩

theorem Inv.orderly_dropConn (h : Inv go serde s) : ∀ c ∈ s.dropConn.conns, c.Orderly := by
  intro c hc
  obtain heq | ⟨k, d, hk, heq⟩ := s.dropConn_conns
  · exact h.orderly c (heq ▸ hc)
  · rw [heq] at hc
    rcases List.mem_or_eq_of_mem_set hc with hc | rfl
    · exact h.orderly c hc
    · exact (h.orderly d (List.mem_of_getElem? hk)).hangUp

/-- A byte of the request goes out on the connection that serves the call. -/
theorem Inv.wrote {b : UInt8} {rest : Octets} (h : Inv go serde s) {call : Call}
    (ht : s.calls[i]? = some ⟨call, .writing (b :: rest)⟩) (hconn : s.conn = some k) :
    Inv go serde ({ s with conns := s.conns.modify k (Conn.push (i, b)) }.goto i
      ⟨call, .writing (b :: rest)⟩ (if rest = [] then .reading else .writing rest)) := by
  obtain ⟨hmu, req, c, buf, rfl, hreader, hk, hphase⟩ := h.writer ht hconn
  have hset : s.conns.modify k (Conn.push (i, b)) = s.conns.set k (c.push (i, b)) :=
    modify_eq_set_of_getElem? hk
  refine h.goto ht hmu rfl rfl rfl ?_ ?_
  · intro d hd
    change d ∈ s.conns.modify k _ at hd
    rw [hset] at hd
    rcases List.mem_or_eq_of_mem_set hd with hd | rfl
    · exact h.orderly d hd
    · exact hphase.orderly_push (ofCall_request go i req)
        (h.orderly c (List.mem_of_getElem? hk))
  · have hbusy : Busy go serde { s with conns := s.conns.modify k (Conn.push (i, b)) } i req
        rest := by
      refine ⟨k, c.push (i, b), buf, hconn, hreader, ?_, ?_⟩
      · rw [hset, getElem?_conns_set hk, if_pos rfl]
      · rw [c.push_toClient]
        exact hphase.push
    -- after the last byte the call is reading, with nothing left to write
    by_cases hrest : rest = []
    · subst hrest
      exact hbusy
    · rw [if_neg hrest]
      exact hbusy

/-- A byte moves from the connection to the reader's buffer, so the two together stay the same. -/
theorem Inv.filled {r : Reader} {c : Conn} {b : Tagged} {rest : List Tagged} {call : Call}
    (h : Inv go serde s) (ht : s.calls[i]? = some ⟨call, .reading⟩) (hreader : s.reader = some r)
    (hc : s.conns[r.conn]? = some c) (hto : c.toClient = b :: rest) :
    Inv go serde { s with
      conns := s.conns.set r.conn { c with toClient := rest }
      reader := some { r with buf := r.buf ++ [b] } } := by
  obtain ⟨hmu, hserves⟩ := h.holder ht (by simp) (by simp)
  cases call with
  | close => exact hserves.elim
  | request req =>
    obtain ⟨k, c', buf, hconn, hreader', hk, hphase⟩ := hserves
    rw [hreader] at hreader'
    cases hreader'
    rw [hc] at hk
    cases hk
    have hgoto : Inv go serde (System.goto
        { s with
          conns := s.conns.set k { c with toClient := rest }
          reader := some ⟨k, buf ++ [b]⟩ } i ⟨.request req, .reading⟩ .reading) := by
      refine h.goto ht hmu rfl rfl rfl ?_ ?_
      · intro d hd
        rcases List.mem_or_eq_of_mem_set hd with hd | rfl
        · exact h.orderly d hd
        · exact h.orderly c (List.mem_of_getElem? hc)
      · refine ⟨k, { c with toClient := rest }, buf ++ [b], hconn, rfl, ?_, ?_⟩
        · rw [getElem?_conns_set hc, if_pos rfl]
        · rw [hto, List.append_cons] at hphase
          exact hphase.of_toClient rest
    rwa [goto_self (by exact ht) rfl] at hgoto

theorem Inv.move (h : Inv go serde s) (ht : s.calls[i]? = some t)
    (hmove : Client.Move go i t s s') : Inv go serde s' := by
  obtain ⟨call, pc⟩ := t
  cases hmove with
  | locked hpc hmu => exact h.lock ht hmu
  | closed hpc hconn =>
    cases hpc
    obtain ⟨hmu, -⟩ := h.holder ht (by simp) (by simp)
    exact h.ret ht hmu rfl rfl h.orderly_dropConn (.inl ⟨rfl, rfl⟩) (fun hr => hr.elim)
  | closedIdle hpc hconn =>
    cases hpc
    obtain ⟨hmu, hidle⟩ := h.holder ht (by simp) (by simp)
    exact h.ret ht hmu rfl rfl h.orderly hidle (fun hr => hr.elim)
  | reused hpc hcall hconn =>
    cases hpc
    cases hcall
    obtain ⟨hmu, hidle⟩ := h.holder ht (by simp) (by simp)
    refine h.goto ht hmu rfl rfl rfl h.orderly ?_
    obtain ⟨hnone, -⟩ | ⟨k, c, hconn', hreader, hk, hquiet⟩ := hidle
    · rw [hnone] at hconn
      cases hconn
    · refine ⟨k, c, [], hconn', hreader, hk, ?_⟩
      rw [List.nil_append, hquiet.toClient_eq]
      exact .start hquiet (h.orderly c (List.mem_of_getElem? hk))
  | dialFailed hpc hconn =>
    cases hpc
    obtain ⟨hmu, hidle⟩ := h.holder ht (by simp) (by simp)
    exact h.ret ht hmu rfl rfl h.orderly hidle (fun hr => hr.elim)
  | dialed hpc hcall hconn =>
    cases hpc
    cases hcall
    obtain ⟨hmu, -⟩ := h.holder ht (by simp) (by simp)
    refine h.goto ht hmu rfl rfl rfl ?_ ?_
    · intro c hc
      rcases List.mem_append.mp hc with hc | hc
      · exact h.orderly c hc
      · rw [List.mem_singleton.mp hc]
        exact orderly_accepted
    · exact ⟨s.conns.length, .accepted, [], rfl, rfl, List.getElem?_concat_length ..,
        .start quiet_accepted orderly_accepted⟩
  | wrote hpc hconn =>
    cases hpc
    exact h.wrote ht hconn
  | writeFailed hpc =>
    cases hpc
    obtain ⟨hmu, -⟩ := h.holder ht (by simp) (by simp)
    exact h.ret ht hmu rfl rfl h.orderly_dropConn (.inl ⟨rfl, rfl⟩) (fun hr => hr.elim)
  | filled hpc hreader hc hto =>
    cases hpc
    exact h.filled ht hreader hc hto
  | @returned req r line rest hpc hcall hreader hline =>
    cases hpc
    cases hcall
    obtain ⟨hmu, hserves⟩ := h.holder ht (by simp) (by simp)
    obtain ⟨k, c, buf, hconn, hreader', hk, hphase⟩ := hserves
    rw [hreader] at hreader'
    cases hreader'
    obtain ⟨hbuf, hl⟩ := takeLine_eq_some hline
    simp only at hbuf
    subst hbuf
    -- the line is the whole answer, and the connection is quiet after it
    obtain ⟨rfl, hquiet, n, response, hanswer, rfl⟩ := hphase.readLine hl
    refine h.ret ht hmu rfl rfl h.orderly (.inr ⟨k, c, hconn, rfl, hk, hquiet⟩) fun _ => ?_
    exact ⟨req, n, response, rfl, hanswer, rfl, by rw [bytesOf_tagged]⟩
  | readFailed hpc =>
    cases hpc
    obtain ⟨hmu, -⟩ := h.holder ht (by simp) (by simp)
    exact h.ret ht hmu rfl rfl h.orderly_dropConn (.inl ⟨rfl, rfl⟩) (fun hr => hr.elim)

theorem Inv.step {a : Act} (h : Inv go serde s) (hstep : System.Step go serde s a s') :
    Inv go serde s' := by
  obtain ⟨call, rfl⟩ | ⟨i, t, ht, hmove⟩ | ⟨k, c, log', c', hk, hmove, rfl⟩ := step_cases hstep
  · exact h.start call
  · exact h.move ht hmove
  · exact h.server hk hmove

theorem run_inv {acts : List Act} (h : Run (System.Step go serde) new acts s) : Inv go serde s :=
  h.invariant (inv_new go serde) fun _ _ _ hinv hstep => hinv.step hstep

end System

end Ipc

end SmartSfp
