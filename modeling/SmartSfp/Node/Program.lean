import SmartSfp.Lib.Script
import SmartSfp.Node.Sequence

/-!
# Program — a process that calls the daemon, and nothing else

The commands of the agent beside the agent itself make one call of the client after another, each
with what came of those before.  When nothing fails and no one else uses the socket, such a program
does over the bytes of the socket what it does with the handlers of the daemon called directly.
-/

namespace SmartSfp

namespace Node

open Lib Ipc Cryptod Httpapi World

/-! ## The process -/

/-- A program: the methods it calls, each with what it does with what they return. -/
abbrev Program (α : Type) := Script ClientRequest Returned α

/-- A program in its world, and the call it is in. -/
structure Process (α : Type) where
  world : World
  script : Program α
  pending : Option Nat

inductive ProcessAct where
  /-- The program calls its next method. -/
  | call
  /-- The method returns. -/
  | back
  | world (a : Act)

/-- A goroutine besides those the process has. -/
def Act.goroutine : Act → Bool
  | .post .. | .handle _ | .start _ => true
  | _ => false

namespace Process

variable {α : Type} (pf : Platform)

def new (s : CryptodState) (script : Program α) : Process α := ⟨World.new s, script, none⟩

def next (p : Process α) : ProcessAct → Option (Process α)
  | .call =>
    match p.pending, p.script with
    | none, .ask req _ =>
      (World.next pf p.world (.start (.request req))).map fun w =>
        { p with world := w, pending := some p.world.ipc.calls.length }
    | _, _ => none
  | .back =>
    match p.pending, p.script with
    | some i, .ask _ next =>
      match p.world.ipc.calls[i]? with
      | some ⟨_, .done _ r⟩ => some { p with script := next r, pending := none }
      | _ => none
    | _, _ => none
  | .world a =>
    if a.goroutine then none else (World.next pf p.world a).map fun w => { p with world := w }

/-- `next` as a transition relation. -/
def Step (p : Process α) (a : ProcessAct) (p' : Process α) : Prop := next pf p a = some p'

end Process

/-- The steps of a process, by what they do. -/
inductive ProcessMove {α : Type} (pf : Platform) (p : Process α) :
    ProcessAct → Process α → Prop where
  | called {req : ClientRequest} {next : Returned → Program α} (hpending : p.pending = none)
      (hscript : p.script = .ask req next) :
      ProcessMove pf p .call { p with
        world := { p.world with
          ipc := { p.world.ipc with calls := p.world.ipc.calls ++ [⟨.request req, .waiting⟩] } }
        pending := some p.world.ipc.calls.length }
  | returned {i : Nat} {req : ClientRequest} {next : Returned → Program α} {call : Call}
      {line : List Tagged} {r : Returned} (hpending : p.pending = some i)
      (hscript : p.script = .ask req next)
      (ht : p.world.ipc.calls[i]? = some ⟨call, .done line r⟩) :
      ProcessMove pf p .back { p with script := next r, pending := none }
  | world {a : Act} {w : World} (ha : a.goroutine = false) (hstep : World.Step pf p.world a w) :
      ProcessMove pf p (.world a) { p with world := w }

theorem processMove_of_step {α : Type} {pf : Platform} {p p' : Process α} {a : ProcessAct}
    (h : Process.Step pf p a p') : ProcessMove pf p a p' := by
  obtain ⟨w, script, pending⟩ := p
  cases a with
  | call =>
    cases pending with
    | some i => cases h
    | none =>
      cases script with
      | stop a => cases h
      | ask req next =>
        cases h
        exact .called rfl rfl
  | back =>
    cases pending with
    | none => cases h
    | some i =>
      cases script with
      | stop a => cases h
      | ask req next =>
        simp only [Process.Step, Process.next] at h
        split at h
        · rename_i call line r ht
          cases h
          exact .returned rfl rfl ht
        · cases h
  | world a =>
    simp only [Process.Step, Process.next] at h
    split at h
    · cases h
    · rename_i ha
      obtain ⟨w', hw, rfl⟩ := Option.map_eq_some_iff.mp h
      exact .world (by simpa using ha) hw

/-- The world of a process goes through a run of its own. -/
theorem run_world_of_step {α : Type} {pf : Platform} {p p' : Process α} {a : ProcessAct}
    (h : Process.Step pf p a p') : ∃ acts, Run (Step pf) p.world acts p'.world := by
  cases processMove_of_step h with
  | @called req next hpending hscript => exact ⟨[.start (.request req)], Run.single rfl⟩
  | returned => exact ⟨[], .nil⟩
  | @world b w hb hstep => exact ⟨[b], Run.single hstep⟩

/-! ## A call, as the handlers serve it -/

/-- A call of the client, where the daemon handles its request and nothing comes between. -/
inductive Serves (crate : Gcm.Crate) (s : CryptodState) (req : ClientRequest) :
    Returned → CryptodState → Prop where
  | answered {x : Cryptod.Exchange} {s' : CryptodState} (hhandles : Handles crate s x s')
      (hread : decodeLine (requestLine req) = some x.request) :
      Serves crate s req (delivered req x.response) s'
  /-- The server could not read the request. -/
  | refused {message : String} (hunread : decodeLine (requestLine req) = none) :
      Serves crate s req (.errorResponse ⟨400, message⟩) s

/-- The server can read the request. -/
def Readable (req : ClientRequest) : Prop := decodeLine (requestLine req) ≠ none

section

variable {crate : Gcm.Crate} {s s' : CryptodState} {key : KeyHandle} {r : Returned}

theorem exists_serves {req : ClientRequest} (s : CryptodState) (h : Readable req) :
    ∃ r s', Serves crate s req r s' := by
  obtain ⟨request, hrequest⟩ := Option.ne_none_iff_exists'.mp h
  obtain ⟨response, s', hrun⟩ := handle_returns crate 0 request s
  exact ⟨_, s', .answered (x := ⟨request, 0, response⟩) hrun hrequest⟩

/-- A slice that was in memory as base64 text too. -/
theorem bind_payload_some {bytes : Octets} (h : base64Len bytes.length ≤ isizeMax) :
    (some bytes).bind payload = some ⟨bytes, h⟩ :=
  payload_eq h

theorem readable_getStatus : Readable .getStatus := by
  rw [Readable, decodeLine_getStatus]
  exact Option.some_ne_none _

theorem readable_encrypt {nonce plaintext : Octets} {aad : GoBytes}
    (hnonce : base64Len nonce.length ≤ isizeMax)
    (haad : base64Len (aad.getD []).length ≤ isizeMax)
    (hfits : base64Len plaintext.length ≤ isizeMax) :
    Readable (.encrypt (some nonce) aad (some plaintext)) := by
  have hdefault : ∃ a, defaultPayload aad = some a := by
    unfold defaultPayload
    split
    · exact ⟨_, rfl⟩
    · cases aad with
      | none => simp_all
      | some bytes => exact ⟨_, bind_payload_some haad⟩
  obtain ⟨a, ha⟩ := hdefault
  rw [Readable, decodeLine_encrypt, bind_payload_some hnonce, ha, bind_payload_some hfits]
  exact Option.some_ne_none _

theorem readable_decrypt {frame : Octets} (hfits : base64Len frame.length ≤ isizeMax) :
    Readable (.decrypt (some frame)) := by
  rw [Readable, decodeLine_decrypt, bind_payload_some hfits]
  exact Option.some_ne_none _

/-- A request that the server can read is handled, whatever comes back. -/
theorem Serves.handled {req : ClientRequest} {request : Request} (h : Serves crate s req r s')
    (hread : decodeLine (requestLine req) = some request) : ∃ elapsed response,
      (handle crate elapsed request).run s = .ok response s' ∧ r = delivered req response := by
  cases h with
  | refused hunread =>
    rw [hunread] at hread
    cases hread
  | @answered x s' hhandles hanswered =>
    have hrequest := hanswered.symm.trans hread
    obtain ⟨request, elapsed, response⟩ := x
    cases hrequest
    exact ⟨elapsed, response, hhandles, rfl⟩

theorem serves_getStatus (h : Serves crate s .getStatus r s') :
    ∃ elapsed, r = .status (report elapsed s.activeAlgo s) ∧ s' = s := by
  obtain ⟨elapsed, response, hrun, rfl⟩ := h.handled decodeLine_getStatus
  rw [handle_getStatus] at hrun
  cases hrun
  exact ⟨elapsed, rfl, rfl⟩

/-- An encryption with a key in force. -/
theorem serves_encrypt (hkey : s.activeKey = some key) {nonce plaintext frame : Octets}
    {aad : GoBytes} (hn : nonce.length = 12) (haad : base64Len (aad.getD []).length ≤ isizeMax)
    (hfits : base64Len plaintext.length ≤ isizeMax)
    (hseal : Wire.ringSealFrame crate s.provider key ⟨nonce, hn⟩ plaintext = .ok frame)
    (h : Serves crate s (.encrypt (some nonce) aad (some plaintext)) r s') :
    r = .bytes frame ∧ s' = s.countSealed := by
  have hnonce : base64Len nonce.length ≤ isizeMax := by
    rw [hn]
    decide
  obtain ⟨request, hrequest⟩ :=
    Option.ne_none_iff_exists'.mp (readable_encrypt hnonce haad hfits)
  have hmeans := means_of_decodeLine hrequest
  obtain ⟨elapsed, response, hrun, rfl⟩ := h.handled hrequest
  cases request <;> first | exact hmeans.elim | skip
  rename_i p
  obtain ⟨hpn, -, hpt⟩ := hmeans
  have hlen : p.nonce.data.length = 12 := by
    rw [hpn]
    exact hn
  rw [handle_encrypt_run crate hkey elapsed hlen] at hrun
  have hsame : Wire.ringSealFrame crate s.provider key ⟨p.nonce.data, hlen⟩ p.plaintext.data =
      .ok frame := by
    rw [← hseal, hpt]
    congr
  rw [hsame] at hrun
  cases hrun
  exact ⟨rfl, rfl⟩

/-- A decryption with a key in force. -/
theorem serves_decrypt (hkey : s.activeKey = some key) {frame : Octets}
    (hfits : base64Len frame.length ≤ isizeMax)
    (h : Serves crate s (.decrypt (some frame)) r s') :
    (∃ plaintext, Wire.ringOpenFrame crate s.provider key frame = .ok plaintext ∧
        r = .bytes plaintext ∧ s' = s.countOpened) ∨
      ∃ e message, Wire.ringOpenFrame crate s.provider key frame = .error e ∧
        r = .errorResponse ⟨openCode e, message⟩ ∧ s' = s.countError := by
  obtain ⟨request, hrequest⟩ := Option.ne_none_iff_exists'.mp (readable_decrypt hfits)
  have hmeans := means_of_decodeLine hrequest
  obtain ⟨elapsed, response, hrun, rfl⟩ := h.handled hrequest
  cases request <;> first | exact hmeans.elim | skip
  rename_i q
  have hq : q.frame.data = frame := hmeans
  rw [handle_decrypt_run crate hkey elapsed, hq] at hrun
  cases hopen : Wire.ringOpenFrame crate s.provider key frame with
  | ok plaintext =>
    rw [hopen] at hrun
    cases hrun
    exact .inl ⟨plaintext, rfl, rfl, rfl⟩
  | error e =>
    rw [hopen] at hrun
    cases hrun
    exact .inr ⟨e, _, rfl, rfl, rfl⟩

end

/-- Every call has come back, and the daemon is at rest in `s`. -/
structure Rest (s : CryptodState) (w : World) : Prop where
  oneLine : OneLine w
  state : w.daemon.shared.state = s
  done : ∀ t ∈ w.daemon.tasks, ∃ response, t.pc = .done response
  back : ∀ (i : Nat) t, w.ipc.calls[i]? = some t → ∃ req line r, t = ⟨.request req, .done line r⟩

/-- No call has failed. -/
def Unfailing (ipc : System) : Prop :=
  ∀ (i : Nat) call line e, ipc.calls[i]? ≠ some ⟨call, .done line (.failed e)⟩

variable {pf : Platform} {s s₀ : CryptodState} {acts acts₁ acts₂ : List Act} {w w₁ w₂ : World}
  {i : Nat}

theorem Unfailing.noFailure (h : Unfailing w.ipc) : NoFailure w.ipc :=
  fun i call line e ht => absurd ht (h i call line e)

theorem rest_new (s : CryptodState) : Rest s (new s) where
  oneLine := oneLine_new s
  state := rfl
  done t ht := absurd ht (not_mem_idle s t)
  back i t ht := by cases ht

/-- A call that has come back has come back for good. -/
theorem done_of_run {call : Call} {line : List Tagged} {r : Returned}
    (hrun : Run (Step pf) w₁ acts w₂) (ht : w₁.ipc.calls[i]? = some ⟨call, .done line r⟩) :
    w₂.ipc.calls[i]? = some ⟨call, .done line r⟩ := by
  induction hrun with
  | nil => exact ht
  | snoc run last ih =>
    obtain hsame | ⟨x, hstep⟩ := (move_of_step last).ipc
    · rw [hsame]
      exact ih
    · obtain ⟨t', ht', -, hdone⟩ := System.calls_step hstep ih
      rw [ht', hdone line r rfl]

/-- A call made before a rest has come back, for good. -/
theorem Rest.done_later (hrest : Rest s w₁) (hrun : Run (Step pf) w₁ acts w₂)
    (hi : i < w₁.ipc.calls.length) : ∃ req line r,
      w₁.ipc.calls[i]? = some ⟨.request req, .done line r⟩ ∧
      w₂.ipc.calls[i]? = some ⟨.request req, .done line r⟩ := by
  obtain ⟨req, line, r, ht⟩ := hrest.back i _ (List.getElem?_eq_getElem hi)
  have ht₁ := (List.getElem?_eq_getElem hi).trans (congrArg some ht)
  exact ⟨req, line, r, ht₁, done_of_run hrun ht₁⟩

/-- Without other clients every task of the daemon is the handler of a line. -/
theorem length_handlings (hrun : Run (Step pf) (new s₀) acts w) (honly : OnlyAgent acts) :
    w.handlings.length = w.daemon.tasks.length := by
  induction hrun with
  | nil => rfl
  | @snoc acts w w' a run last ih =>
    have hlength := ih fun b hb => honly b (List.mem_append_left _ hb)
    have hown := honly a (List.mem_append_right _ List.mem_cons_self)
    cases move_of_step last with
    | @tookUp k ipc line request hstep hwaiting =>
      show w.handlings.length + 1 = (w.daemon.tasks ++ [_]).length
      rw [List.length_append, List.length_singleton, hlength]
    | ran hstep =>
      obtain ⟨t, sh', t', -, -, rfl⟩ := run_cases hstep
      show w.handlings.length = (w.daemon.tasks.set _ t').length
      rw [List.length_set, hlength]
    | other => cases hown
    | _ => exact hlength

theorem decodeLine_nil : decodeLine [] = none := by
  rfl

/-- A line that was handled has a byte of a call. -/
theorem exists_mentions (hrun : Run (Step pf) (new s₀) acts w) {hd : Handling}
    (hhd : hd ∈ w.handlings) : ∃ j, mentions j hd.line = true := by
  obtain ⟨t, -, hdecode⟩ := (run_linked hrun).records hd hhd
  cases hline : hd.line with
  | nil =>
    rw [hline] at hdecode
    rw [show pf.serde.decode [] = decodeLine [] from rfl, decodeLine_nil] at hdecode
    cases hdecode
  | cons b rest => exact ⟨b.1, by simp [mentions]⟩

/-- The records of the handlers started since come first, and are those of later tasks. -/
theorem exists_started (hrun : Run (Step pf) w₁ acts w₂) :
    ∃ started, w₂.handlings = started ++ w₁.handlings ∧
      ∀ hd ∈ started, w₁.daemon.tasks.length ≤ hd.task := by
  induction hrun with
  | nil => exact ⟨[], rfl, fun hd hhd => absurd hhd List.not_mem_nil⟩
  | @snoc acts w w' a run last ih =>
    obtain ⟨started, hstarted, hlater⟩ := ih
    cases move_of_step last with
    | @tookUp k ipc line request hstep hwaiting =>
      refine ⟨⟨k, w.daemon.tasks.length, line⟩ :: started, ?_, fun hd hhd => ?_⟩
      · show _ :: w.handlings = _
        rw [hstarted]
        rfl
      · rcases List.mem_cons.mp hhd with rfl | hhd
        · exact (task_le_of_later run).1
        · exact hlater hd hhd
    | _ => exact ⟨started, hstarted, hlater⟩

/-- A handler started since the daemon was at rest is one for the call made since. -/
theorem mentions_of_later (hrun₁ : Run (Step pf.decoding) (new s₀) acts₁ w₁) (hrest : Rest s w₁)
    (hrun₂ : Run (Step pf.decoding) w₁ acts₂ w₂) (hunfailing : Unfailing w₂.ipc)
    (hcalls : w₂.ipc.calls.length ≤ w₁.ipc.calls.length + 1) {hd : Handling}
    (hhd : hd ∈ w₂.handlings) (hlate : w₁.daemon.tasks.length ≤ hd.task) :
    mentions w₁.ipc.calls.length hd.line = true := by
  have hrun := hrun₁.append hrun₂
  obtain ⟨j, hj⟩ := exists_mentions hrun hhd
  have hlt := lt_calls_of_mentions hrun hhd hj
  by_cases hlast : j = w₁.ipc.calls.length
  · rw [← hlast]
    exact hj
  · -- an earlier call has come back, so its handler was started before
    exfalso
    have hjlt : j < w₁.ipc.calls.length := by omega
    obtain ⟨req, line, r, ht₁, ht₂⟩ := hrest.done_later hrun₂ hjlt
    have hne : line ≠ [] := by
      obtain ⟨xs, hipc⟩ := run_ipc hrun
      obtain ⟨-, e, rfl⟩ | ⟨hne, -⟩ := System.run_ends hipc ht₂
      · exact absurd ht₂ (hunfailing j _ line e)
      · exact hne
    obtain ⟨hunread, -⟩ | ⟨hd₁, request₁, response₁, hdelivered⟩ :=
      refused_or_delivered hrun₁ ht₁ hne
    · obtain ⟨-, hrefused⟩ | ⟨hd₂, request₂, response₂, hdelivered⟩ :=
        refused_or_delivered hrun ht₂ hne
      · rw [hrefused.unhandled hd hhd] at hj
        cases hj
      · obtain ⟨t, -, hdecode⟩ := (run_linked hrun).records hd₂ hdelivered.handled
        rw [hdelivered.own] at hdecode
        have hread := (decode_requestLine pf.decoding j req).symm.trans hdecode
        rw [hunread] at hread
        cases hread
    · obtain ⟨started, hstarted, -⟩ := exists_started hrun₂
      have hold : hd₁ ∈ w₂.handlings := by
        rw [hstarted]
        exact List.mem_append_right _ hdelivered.handled
      have hmentions : mentions j hd₁.line = true := by
        rw [hdelivered.own]
        exact mentions_tagged j _ (by simp [Ipc.requestLine])
      have hsame := handling_unique hrun hhd hold hj hmentions
      obtain ⟨t, htask, -⟩ := (run_linked hrun₁).records hd₁ hdelivered.handled
      have hlt₁ := (List.getElem?_eq_some_iff.mp htask).1
      rw [hsame] at hlate
      omega

/-- Tasks that have answered are those of exchanges. -/
theorem exists_exchanges {ts : List Task} (h : ∀ t ∈ ts, ∃ response, t.pc = .done response) :
    ∃ xs : List Cryptod.Exchange, ts = xs.map Exchange.task := by
  induction ts with
  | nil => exact ⟨[], rfl⟩
  | cons t ts ih =>
    obtain ⟨xs, hxs⟩ := ih fun u hu => h u (List.mem_cons_of_mem _ hu)
    obtain ⟨response, hdone⟩ := h t List.mem_cons_self
    obtain ⟨request, pc⟩ := t
    cases hdone
    exact ⟨⟨request, 0, response⟩ :: xs, by rw [hxs]; rfl⟩

/-- A step from a rest to the return of the one call made since. -/
structure Since (pf : Platform) (s : CryptodState) (req : ClientRequest) (line : List Tagged)
    (r : Returned) (w₁ w₂ : World) : Prop where
  before : ∃ s₀ acts₁, Run (Step pf.decoding) (new s₀) acts₁ w₁ ∧ OnlyAgent acts₁
  rest : Rest s w₁
  after : ∃ acts₂, Run (Step pf.decoding) w₁ acts₂ w₂ ∧ OnlyAgent acts₂
  unfailing : Unfailing w₂.ipc
  calls : w₂.ipc.calls.length = w₁.ipc.calls.length + 1
  returned : w₂.ipc.calls[w₁.ipc.calls.length]? = some ⟨.request req, .done line r⟩

namespace Since

variable {req : ClientRequest} {line : List Tagged} {r : Returned}

theorem line_ne_nil (h : Since pf s req line r w₁ w₂) : line ≠ [] := by
  obtain ⟨s₀, acts₁, hrun₁, -⟩ := h.before
  obtain ⟨acts₂, hrun₂, -⟩ := h.after
  obtain ⟨xs, hipc⟩ := run_ipc (hrun₁.append hrun₂)
  obtain ⟨-, e, rfl⟩ | ⟨hne, -⟩ := System.run_ends hipc h.returned
  · exact absurd h.returned (h.unfailing _ _ _ _)
  · exact hne

theorem back (h : Since pf s req line r w₁ w₂) (j : Nat) (t : CallState)
    (ht : w₂.ipc.calls[j]? = some t) : ∃ req line r, t = ⟨.request req, .done line r⟩ := by
  obtain ⟨acts₂, hrun₂, -⟩ := h.after
  by_cases hj : j = w₁.ipc.calls.length
  · rw [hj, h.returned] at ht
    cases ht
    exact ⟨req, line, r, rfl⟩
  · have hlt : j < w₂.ipc.calls.length := (List.getElem?_eq_some_iff.mp ht).1
    have hlt₁ : j < w₁.ipc.calls.length := by
      rw [h.calls] at hlt
      omega
    obtain ⟨req', line', r', -, hkept⟩ := h.rest.done_later hrun₂ hlt₁
    rw [hkept] at ht
    cases ht
    exact ⟨req', line', r', rfl⟩

/-- The handlers started since are at most one, and of the call. -/
theorem started (h : Since pf s req line r w₁ w₂) :
    ∃ started, w₂.handlings = started ++ w₁.handlings ∧ started.length ≤ 1 ∧
      w₂.daemon.tasks.length = w₁.daemon.tasks.length + started.length ∧
      ∀ hd ∈ started, w₁.daemon.tasks.length ≤ hd.task ∧
        mentions w₁.ipc.calls.length hd.line = true := by
  obtain ⟨s₀, acts₁, hrun₁, honly₁⟩ := h.before
  obtain ⟨acts₂, hrun₂, honly₂⟩ := h.after
  have hrun := hrun₁.append hrun₂
  obtain ⟨started, hstarted, hlater⟩ := exists_started hrun₂
  have hmentions (hd : Handling) (hhd : hd ∈ started) :
      mentions w₁.ipc.calls.length hd.line = true := by
    refine mentions_of_later hrun₁ h.rest hrun₂ h.unfailing (Nat.le_of_eq h.calls) ?_
      (hlater hd hhd)
    rw [hstarted]
    exact List.mem_append_left _ hhd
  refine ⟨started, hstarted, ?_, ?_, fun hd hhd => ⟨hlater hd hhd, hmentions hd hhd⟩⟩
  · -- a call is executed once
    obtain ⟨xs, hipc⟩ := run_ipc hrun
    have hone : w₂.ipc.executions w₁.ipc.calls.length ≤ 1 :=
      Nat.le_trans (Nat.le_add_left _ _) (System.run_tokens hipc _)
    rw [(run_linked hrun).executions, hstarted, List.countP_append,
      List.countP_eq_length.mpr hmentions] at hone
    omega
  · have honly : OnlyAgent (acts₁ ++ acts₂) := fun a ha =>
      (List.mem_append.mp ha).elim (honly₁ a) (honly₂ a)
    have hlength₁ := length_handlings hrun₁ honly₁
    have hlength₂ := length_handlings hrun honly
    rw [hstarted, List.length_append] at hlength₂
    omega

/-- The call is served by one handler, or by none when it was refused; then the daemon is at rest
again. -/
theorem serves (h : Since pf s req line r w₁ w₂) :
    ∃ s', Serves pf.crate s req r s' ∧ Rest s' w₂ := by
  obtain ⟨s₀, acts₁, hrun₁, honly₁⟩ := h.before
  obtain ⟨acts₂, hrun₂, honly₂⟩ := h.after
  have hrun := hrun₁.append hrun₂
  -- the daemon as the sequential one
  obtain ⟨xs₀, hxs₀⟩ := exists_exchanges h.rest.done
  obtain ⟨ys, hreach⟩ := run_daemon hrun₁
  obtain ⟨hone, zs, hlone⟩ :=
    run_lone_from hrun₁ h.rest.oneLine hrun₂ honly₂ h.unfailing.noFailure
  have hstage := (stage_iff_of_done h.rest.done).mpr h.rest.state
  obtain ⟨xs, s', hseq, hstage', hqueue⟩ := lone_sequential_from hreach hstage (.inl hxs₀) hlone
  have hrest (htasks : w₂.daemon.tasks = (xs₀ ++ xs).map Exchange.task) : Rest s' w₂ := by
    have hdone : ∀ t ∈ w₂.daemon.tasks, ∃ response, t.pc = .done response := by
      intro t ht
      rw [htasks] at ht
      obtain ⟨x, -, rfl⟩ := List.mem_map.mp ht
      exact ⟨_, rfl⟩
    exact ⟨hone, (stage_iff_of_done hdone).mp hstage', hdone, h.back⟩
  obtain ⟨started, hstarted, hcount, hlength, hown⟩ := h.started
  rw [hxs₀, List.length_map] at hlength
  obtain ⟨hunread, hrefused⟩ | ⟨hd, request, response, hdelivered⟩ :=
    refused_or_delivered hrun h.returned h.line_ne_nil
  · have hnone : started = [] := by
      cases started with
      | nil => rfl
      | cons hd rest =>
        have hmentions := (hown hd List.mem_cons_self).2
        rw [hrefused.unhandled hd (by simp [hstarted])] at hmentions
        cases hmentions
    rw [hnone] at hlength
    obtain ⟨hnil, htasks⟩ := hqueue.none_added hlength
    subst hnil
    have hs := hseq.eq_of_nil
    subst hs
    obtain ⟨message, rfl⟩ := hrefused.returned
    refine ⟨_, .refused hunread, hrest ?_⟩
    rw [List.append_nil]
    exact htasks
  · have hhd : hd ∈ started := by
      have hmem := hdelivered.handled
      rw [hstarted] at hmem
      refine (List.mem_append.mp hmem).resolve_right fun hold => ?_
      refine Nat.lt_irrefl _ (lt_calls_of_mentions hrun₁ hold ?_)
      rw [hdelivered.own]
      exact mentions_tagged _ _ (by simp [Ipc.requestLine])
    have hle := (hown hd hhd).1
    have hlt := (List.getElem?_eq_some_iff.mp hdelivered.answered).1
    rw [hxs₀, List.length_map] at hle
    have hplace : hd.task = xs₀.length := by omega
    have hanswered := hdelivered.answered
    rw [hplace] at hanswered
    obtain ⟨elapsed, rfl, htasks⟩ := hqueue.one_added (by omega) hanswered
    obtain ⟨u, hnil, hhandles⟩ := Run.exists_last
      (show Run (Handles pf.crate) s ([] ++ [⟨request, elapsed, response⟩]) s' from hseq)
    rw [hnil.eq_of_nil] at hhandles
    rw [hdelivered.returned]
    refine ⟨s', .answered hhandles ?_, hrest htasks⟩
    obtain ⟨t, ht, hdecode⟩ := (run_linked hrun).records hd hdelivered.handled
    rw [hdelivered.answered] at ht
    cases ht
    rw [hdelivered.own] at hdecode
    exact (decode_requestLine pf.decoding _ req).symm.trans hdecode

end Since

/-! ## The program over the socket -/

section

variable {α : Type} {script : Program α} {p p' : Process α} {a : ProcessAct}
  {pacts : List ProcessAct}

theorem Unfailing.before (h : Unfailing w₂.ipc) (hrun : Run (Step pf) w₁ acts w₂) :
    Unfailing w₁.ipc :=
  fun i call line e ht => h i call line e (done_of_run hrun ht)

/-- Where a process is when, against the handlers themselves, the program is where it is in `s`. -/
inductive Between (pf : Platform) (s₀ s : CryptodState) (p : Process α) : Prop where
  | rest {acts : List Act} (hpending : p.pending = none)
      (hrun : Run (Step pf.decoding) (new s₀) acts p.world) (honly : OnlyAgent acts)
      (hrest : Rest s p.world)
  | calling {w₁ : World} {acts₁ acts₂ : List Act} {req : ClientRequest}
      {next : Returned → Program α} {pc : CallPc}
      (hpending : p.pending = some w₁.ipc.calls.length) (hscript : p.script = .ask req next)
      (hrun₁ : Run (Step pf.decoding) (new s₀) acts₁ w₁) (honly₁ : OnlyAgent acts₁)
      (hrest : Rest s w₁) (hrun₂ : Run (Step pf.decoding) w₁ acts₂ p.world)
      (honly₂ : OnlyAgent acts₂)
      (hcalls : p.world.ipc.calls.length = w₁.ipc.calls.length + 1)
      (ht : p.world.ipc.calls[w₁.ipc.calls.length]? = some ⟨.request req, pc⟩)

theorem onlyAgent_concat {a : Act} (h : OnlyAgent acts) (ha : a.foreign = false) :
    OnlyAgent (acts ++ [a]) := by
  intro b hb
  rcases List.mem_append.mp hb with hb | hb
  · exact h b hb
  · rw [List.mem_singleton.mp hb]
    exact ha

/-- A step in which no goroutine makes a call leaves the calls what they are. -/
theorem calls_of_step {a : Act} {w w' : World} (ha : a.goroutine = false)
    (hstep : Step pf w a w') (i : Nat) :
    w'.ipc.calls.length = w.ipc.calls.length ∧
      ∀ t, w.ipc.calls[i]? = some t → ∃ pc, w'.ipc.calls[i]? = some ⟨t.call, pc⟩ := by
  have hkept (t : CallState) (ht : w.ipc.calls[i]? = some t) :
      ∃ pc, w'.ipc.calls[i]? = some ⟨t.call, pc⟩ := by
    obtain hsame | ⟨x, hx⟩ := (move_of_step hstep).ipc
    · exact ⟨t.pc, hsame ▸ ht⟩
    · obtain ⟨⟨call, pc⟩, ht', rfl, -⟩ := System.calls_step hx ht
      exact ⟨pc, ht'⟩
  refine ⟨?_, hkept⟩
  cases move_of_step hstep with
  | posted | refused | called | replied | started => cases ha
  | client hx =>
    obtain ⟨t, ht, hcall⟩ := System.step_client hx
    cases callMove_of_step hcall with
    | same hcalls => rw [hcalls]
    | moved pc' hcalls hends => rw [hcalls, List.length_set]
  | tookUp hx hwaiting =>
    obtain ⟨c, log', c', -, -, rfl⟩ := System.step_server hx
    rfl
  | served hx hreceive hrespond =>
    obtain ⟨c, log', c', -, -, rfl⟩ := System.step_server hx
    rfl
  | ran hx => rfl
  | other => rfl

/-! ## The calls of a program -/

/-- Anything may be answered. -/
def Anything (_ : Unit) (_ : ClientRequest) (_ : Returned) (_ : Unit) : Prop := True

/-- The calls of a process are those its program has made, with what they returned, and the one it
is in. -/
structure Made (log : List (ClientRequest × Returned)) (p : Process α) : Prop where
  length : p.world.ipc.calls.length = log.length + p.pending.toList.length
  answered : ∀ (k : Nat) x, log[k]? = some x →
    ∃ line, p.world.ipc.calls[k]? = some ⟨.request x.1, .done line x.2⟩
  pending : ∀ i, p.pending = some i → i = log.length ∧
    ∃ req next pc, p.script = .ask req next ∧ p.world.ipc.calls[i]? = some ⟨.request req, pc⟩

variable {log : List (ClientRequest × Returned)}

theorem Made.step (h : Made log p) (hstep : Process.Step pf p a p') :
    ∃ later, Run (Script.Asks Anything) (p.script, ()) later (p'.script, ()) ∧
      Made (log ++ later) p' := by
  cases processMove_of_step hstep with
  | @called req next hpending hscript =>
    have hlength : p.world.ipc.calls.length = log.length := by
      rw [h.length, hpending]
      rfl
    refine ⟨[], .nil, ?_⟩
    rw [List.append_nil]
    refine ⟨by simp [hlength], fun k x hx => ?_, fun i hi => ?_⟩
    · obtain ⟨line, ht⟩ := h.answered k x hx
      exact ⟨line, List.getElem?_append_left (List.getElem?_eq_some_iff.mp ht).1 ▸ ht⟩
    · cases hi
      exact ⟨hlength, req, next, .waiting, hscript, by simp⟩
  | @returned i req next call line r hpending hscript ht =>
    obtain ⟨rfl, req', next', pc, hscript', ht'⟩ := h.pending i hpending
    rw [hscript] at hscript'
    cases hscript'
    rw [ht] at ht'
    cases ht'
    refine ⟨[(req, r)], ?_, ?_, fun k x hx => ?_, fun i hi => by cases hi⟩
    · rw [hscript]
      exact Run.single (Script.asks_ask trivial)
    · show p.world.ipc.calls.length = _
      rw [h.length, hpending]
      simp
    · by_cases hk : k < log.length
      · rw [List.getElem?_append_left hk] at hx
        exact h.answered k x hx
      · have hlt := (List.getElem?_eq_some_iff.mp hx).1
        rw [List.length_append, List.length_singleton] at hlt
        have hlast : k = log.length := by omega
        subst hlast
        rw [List.getElem?_append_right (Nat.le_refl _), Nat.sub_self] at hx
        cases hx
        exact ⟨line, ht⟩
  | @world b w hb hworld =>
    refine ⟨[], .nil, ?_⟩
    rw [List.append_nil]
    refine ⟨?_, fun k x hx => ?_, fun i hi => ?_⟩
    · show w.ipc.calls.length = _
      rw [(calls_of_step hb hworld 0).1, h.length]
    · obtain ⟨line, ht⟩ := h.answered k x hx
      exact ⟨line, done_of_run (Run.single hworld) ht⟩
    · obtain ⟨hlast, req, next, pc, hscript, ht⟩ := h.pending i hi
      obtain ⟨pc', ht'⟩ := (calls_of_step hb hworld i).2 _ ht
      exact ⟨hlast, req, next, pc', hscript, ht'⟩

/-- Whatever fails, and whoever else makes requests. -/
theorem exists_made (hrun : Run (Process.Step pf) (Process.new s₀ script) pacts p) :
    ∃ log, Run (Script.Asks Anything) (script, ()) log (p.script, ()) ∧ Made log p := by
  induction hrun with
  | nil =>
    refine ⟨[], .nil, rfl, fun k x hx => ?_, fun i hi => ?_⟩
    · cases hx
    · cases hi
  | snoc _ last ih =>
    obtain ⟨log, hlog, hmade⟩ := ih
    obtain ⟨later, hlater, hmade'⟩ := hmade.step last
    exact ⟨log ++ later, hlog.append hlater, hmade'⟩

theorem run_world (hrun : Run (Process.Step pf) (Process.new s₀ script) pacts p) :
    ∃ acts, Run (Step pf) (new s₀) acts p.world := by
  induction hrun with
  | nil => exact ⟨[], .nil⟩
  | snoc _ last ih =>
    obtain ⟨acts, hacts⟩ := ih
    obtain ⟨bs, hworld⟩ := run_world_of_step last
    exact ⟨acts ++ bs, hacts.append hworld⟩

/-- A program that has stopped has had an answer to each of its calls. -/
theorem Made.length_of_stopped {r : α} (h : Made log p) (hscript : p.script = .stop r) :
    p.world.ipc.calls.length = log.length := by
  have hpending : p.pending = none := by
    by_contra hpending
    obtain ⟨i, hi⟩ := Option.ne_none_iff_exists'.mp hpending
    obtain ⟨-, req, next, pc, hask, -⟩ := h.pending i hi
    rw [hscript] at hask
    cases hask
  rw [h.length, hpending]
  rfl

/-- An answer that is neither a failure nor a refusal is that of the one handler for the call. -/
theorem Made.delivered (h : Made log p) (hrun : Run (Step pf.decoding) (new s₀) acts p.world)
    {k : Nat} {x : ClientRequest × Returned} (hx : log[k]? = some x)
    (hfailed : ∀ failure, x.2 ≠ .failed failure)
    (hrefused : ∀ message, x.2 ≠ .errorResponse ⟨400, message⟩) :
    ∃ line hd request response,
      p.world.ipc.calls[k]? = some ⟨.request x.1, .done line x.2⟩ ∧
      Delivered p.world k x.1 x.2 hd request response := by
  obtain ⟨line, ht⟩ := h.answered k x hx
  obtain ⟨xs, hipc⟩ := run_ipc hrun
  obtain ⟨-, failure, hfailure⟩ | ⟨hne, -⟩ := System.run_ends hipc ht
  · exact absurd hfailure (hfailed failure)
  · obtain hrefusal | ⟨hd, request, response, hdelivered⟩ := returned_of_line hrun ht hne
    · obtain ⟨message, hmessage⟩ := hrefusal.returned
      exact absurd hmessage (hrefused message)
    · exact ⟨line, hd, request, response, ht, hdelivered⟩

/-- Nothing disturbs the rest but a call. -/
theorem Rest.step {a : Act} {w w' : World} (hrun : Run (Step pf.decoding) (new s₀) acts w)
    (hrest : Rest s w) (hstep : Step pf.decoding w a w') (ha : a.goroutine = false)
    (hown : a.foreign = false) (hunfailing : Unfailing w'.ipc) : Rest s w' := by
  have hone := (hrest.oneLine.move hrun (move_of_step hstep) hunfailing.noFailure hown).1
  have hback (j : Nat) (t : CallState) (ht : w'.ipc.calls[j]? = some t) :
      ∃ req line r, t = ⟨.request req, .done line r⟩ := by
    have hlt : j < w'.ipc.calls.length := (List.getElem?_eq_some_iff.mp ht).1
    rw [(calls_of_step ha hstep j).1] at hlt
    obtain ⟨req, line, r, -, hkept⟩ := hrest.done_later (Run.single hstep) hlt
    rw [hkept] at ht
    cases ht
    exact ⟨req, line, r, rfl⟩
  have hkeep (hdaemon : w'.daemon = w.daemon) : Rest s w' :=
    ⟨hone, hdaemon ▸ hrest.state, hdaemon ▸ hrest.done, hback⟩
  have hlength := (calls_of_step ha hstep 0).1
  cases move_of_step hstep with
  | posted | refused | called | replied | started => cases ha
  | other => cases hown
  | client hx => exact hkeep rfl
  | served hx hreceive hrespond => exact hkeep rfl
  | ran hx =>
    -- every task has answered
    obtain ⟨t, sh', t', ht, hmove, -⟩ := run_cases hx
    obtain ⟨response, hpc⟩ := hrest.done t (List.mem_of_getElem? ht)
    exact absurd hpc (hmove.not_done response)
  | @tookUp k ipc line request hx hwaiting =>
    -- the line would be one of a call that has not come back
    exfalso
    have hmem : ⟨k, w.daemon.tasks.length, line⟩ ∈
        ({ w.startHandler k line request with ipc := ipc } : World).handlings := List.mem_cons_self
    have hmentions := mentions_of_later hrun hrest (Run.single hstep) hunfailing
      (Nat.le_succ_of_le (Nat.le_of_eq hlength)) hmem (Nat.le_refl _)
    have hlt := lt_calls_of_mentions (hrun.snoc hstep) hmem hmentions
    rw [hlength] at hlt
    exact Nat.lt_irrefl _ hlt

/-- A step of the process is none of the program, or one of its calls served by the daemon. -/
theorem Between.step (h : Between pf s₀ s p) (hstep : Process.Step pf.decoding p a p')
    (hown : ∀ b, a = .world b → b.foreign = false) (hunfailing : Unfailing p'.world.ipc) :
    ∃ log s', Run (Script.Asks (Serves pf.crate)) (p.script, s) log (p'.script, s') ∧
      Between pf s₀ s' p' := by
  cases processMove_of_step hstep with
  | @called req next hpending hscript =>
    refine ⟨[], s, .nil, ?_⟩
    cases h with
    | calling hpending' => rw [hpending] at hpending'; cases hpending'
    | @rest acts _ hrun honly hrest =>
      have hstart : Step pf.decoding p.world (.start (.request req)) { p.world with
          ipc := { p.world.ipc with calls := p.world.ipc.calls ++ [⟨.request req, .waiting⟩] } } :=
        rfl
      have hwaiting : (p.world.ipc.calls ++ [⟨.request req, .waiting⟩])[p.world.ipc.calls.length]? =
          some ⟨.request req, .waiting⟩ := by simp
      refine .calling rfl hscript hrun honly hrest (Run.single hstart) ?_ ?_ hwaiting
      · exact fun b hb => by rw [List.mem_singleton.mp hb]; rfl
      · simp
  | @returned i req next call line r hpending hscript ht =>
    cases h with
    | rest hpending' => rw [hpending] at hpending'; cases hpending'
    | @calling w₁ acts₁ acts₂ req' next' pc hpending' hscript' hrun₁ honly₁ hrest hrun₂ honly₂
        hcalls ht' =>
      rw [hpending] at hpending'
      cases hpending'
      rw [hscript] at hscript'
      cases hscript'
      rw [ht] at ht'
      cases ht'
      obtain ⟨s', hserves, hrest'⟩ := Since.serves ⟨⟨s₀, acts₁, hrun₁, honly₁⟩, hrest,
        ⟨acts₂, hrun₂, honly₂⟩, hunfailing, hcalls, ht⟩
      refine ⟨[(req, r)], s', ?_, ?_⟩
      · rw [hscript]
        exact Run.single (Script.asks_ask hserves)
      · refine .rest rfl (hrun₁.append hrun₂) (fun b hb => ?_) hrest'
        exact (List.mem_append.mp hb).elim (honly₁ b) (honly₂ b)
  | @world b w hb hworld =>
    refine ⟨[], s, .nil, ?_⟩
    have hown := hown b rfl
    cases h with
    | @rest acts hpending hrun honly hrest =>
      exact .rest hpending (hrun.snoc hworld) (onlyAgent_concat honly hown)
        (hrest.step hrun hworld hb hown hunfailing)
    | @calling w₁ acts₁ acts₂ req next pc hpending hscript hrun₁ honly₁ hrest hrun₂ honly₂ hcalls
        ht =>
      obtain ⟨hlength, hkept⟩ := calls_of_step hb hworld w₁.ipc.calls.length
      obtain ⟨pc', ht'⟩ := hkept _ ht
      exact .calling hpending hscript hrun₁ honly₁ hrest (hrun₂.snoc hworld)
        (onlyAgent_concat honly₂ hown) (hlength.trans hcalls) ht'

/-- Every run of a process is a run of the program against the handlers. -/
theorem exists_between (hrun : Run (Process.Step pf.decoding) (Process.new s₀ script) pacts p)
    (hown : ∀ a, .world a ∈ pacts → a.foreign = false) (hunfailing : Unfailing p.world.ipc) :
    ∃ log s, Run (Script.Asks (Serves pf.crate)) (script, s₀) log (p.script, s) ∧
      Between pf s₀ s p := by
  induction hrun with
  | nil =>
    exact ⟨[], s₀, .nil, .rest rfl .nil (fun a ha => absurd ha List.not_mem_nil) (rest_new s₀)⟩
  | @snoc pacts p p' a run last ih =>
    obtain ⟨bs, hworld⟩ := run_world_of_step last
    obtain ⟨log, s, hlog, hbetween⟩ := ih
      (fun b hb => hown b (List.mem_append_left _ hb)) (hunfailing.before hworld)
    have hlast (b : Act) (hb : a = .world b) : b.foreign = false := by
      rw [hb] at hown
      exact hown b (List.mem_append_right _ List.mem_cons_self)
    obtain ⟨log', s', hlog', hbetween'⟩ := hbetween.step last hlast hunfailing
    exact ⟨log ++ log', s', hlog.append hlog', hbetween'⟩

/-- A program that has stopped is in no call. -/
theorem Between.stopped {r : α} (h : Between pf s₀ s p) (hscript : p.script = .stop r) :
    p.pending = none ∧ Rest s p.world := by
  cases h with
  | rest hpending _ _ hrest => exact ⟨hpending, hrest⟩
  | calling _ hask =>
    rw [hscript] at hask
    cases hask

/-- A program over the socket is the program against the handlers.  In every run in which no other
client makes requests, no task of the server dies and no call fails, over the bytes of the socket
and with the handlers in steps: the program has made the calls, and had the results, of a run in
which each of its calls is handled by the daemon on its own; and between two calls the daemon is at
rest in the state that run is in. -/
theorem program_sequential (pf : Platform) (s₀ : CryptodState) (script : Program α)
    (acts : List ProcessAct) (p : Process α)
    (hrun : Run (Process.Step pf.decoding) (Process.new s₀ script) acts p)
    (hown : ∀ a, .world a ∈ acts → a.foreign = false) (hunfailing : Unfailing p.world.ipc) :
    ∃ log s, Run (Script.Asks (Serves pf.crate)) (script, s₀) log (p.script, s) ∧
      (p.pending = none → p.world.daemon.shared.state = s ∧
        ∀ t ∈ p.world.daemon.tasks, ∃ response, t.pc = .done response) := by
  obtain ⟨log, s, hlog, hbetween⟩ := exists_between hrun hown hunfailing
  refine ⟨log, s, hlog, fun hpending => ?_⟩
  cases hbetween with
  | rest _ _ _ hrest => exact ⟨hrest.state, hrest.done⟩
  | calling hpending' =>
    rw [hpending] at hpending'
    cases hpending'

/-- While the program waits, or has stopped, its world goes on. -/
theorem run_of_run_world (hrun : Run (Step pf) w₁ acts w₂) (hacts : ∀ a ∈ acts, a.goroutine = false)
    (script : Program α) (pending : Option Nat) :
    Run (Process.Step pf) ⟨w₁, script, pending⟩ (acts.map .world) ⟨w₂, script, pending⟩ := by
  induction hrun with
  | nil => exact .nil
  | @snoc acts w w' a run last ih =>
    rw [List.map_append]
    refine (ih fun b hb => hacts b (List.mem_append_left _ hb)).snoc ?_
    have ha := hacts a (List.mem_append_right _ List.mem_cons_self)
    have hnext : World.next pf w a = some w' := last
    simp [Process.Step, Process.next, ha, hnext]

namespace Kat

/-- Seal the text, and stop with what comes back. -/
def sealScript : Program Returned := .ask sealCall .stop

/-- The process when it has stopped. -/
def sealProcess : Process Returned := ⟨sealedWorld, .stop (.bytes Gcm.Kat.frame256), none⟩

/-- The call, what the world does about it, and its return. -/
def sealProcessActs : List ProcessAct := .call :: (sealActs.tail.map .world ++ [.back])

theorem sealProcess_run :
    Run (Process.Step platform.decoding) (Process.new Cryptod.Kat.rotated sealScript)
      sealProcessActs sealProcess := by
  obtain ⟨w, hstart, hrun⟩ := Run.exists_first
    (show Run (Step platform.decoding) (new Cryptod.Kat.rotated)
      (.start (.request sealCall) :: sealActs.tail) sealedWorld from sealedWorld_run)
  have hwaits := run_of_run_world hrun (by decide +kernel) sealScript (some 0)
  cases hstart
  exact Run.cons rfl (hwaits.snoc rfl)

theorem sealProcess_own (a : Act) (ha : .world a ∈ sealProcessActs) : a.foreign = false := by
  have hall : ∀ a ∈ sealActs.tail, a.foreign = false := by decide +kernel
  simp only [sealProcessActs, List.mem_cons, List.mem_append, List.mem_map, reduceCtorEq,
    List.not_mem_nil, or_false, false_or] at ha
  obtain ⟨b, hb, heq⟩ := ha
  cases heq
  exact hall a hb

end Kat

/-- What the process stopped with, the program stops with against the handlers. -/
theorem program_sequential_sealed : ∃ log s,
    Run (Script.Asks (Serves Gcm.kat)) (Kat.sealScript, Cryptod.Kat.rotated) log
      (.stop (.bytes Gcm.Kat.frame256), s) ∧ Kat.sealedWorld.daemon.shared.state = s := by
  obtain ⟨log, s, hlog, hrest⟩ := program_sequential Kat.platform Cryptod.Kat.rotated Kat.sealScript
    Kat.sealProcessActs Kat.sealProcess Kat.sealProcess_run Kat.sealProcess_own (by
      intro i call line e ht
      have hmem := List.mem_of_getElem? ht
      simp [Kat.sealProcess, Kat.sealedWorld] at hmem)
  exact ⟨log, s, hlog, (hrest rfl).1⟩

end

end Node

end SmartSfp
