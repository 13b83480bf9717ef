import SmartSfp.Ipc.Results
import SmartSfp.Node.Report

/-!
# Delivery — a call of the client from its arguments to its result

Every method of the client, over the bytes of the socket, down to the handler that ran for it and
back: the handler had the arguments of the call, and the call returns what the handler answered.
-/

namespace SmartSfp

namespace Node

open Lib Ipc Cryptod Httpapi World

/-! ## The arguments -/

theorem data_of_bind_payload {b : GoBytes} {p : Payload} (h : b.bind payload = some p) :
    p.data = b.getD [] := by
  obtain ⟨bytes, rfl, hp⟩ := Option.bind_eq_some_iff.mp h
  unfold payload at hp
  split at hp
  · cases hp
    rfl
  · cases hp

theorem data_of_defaultPayload {b : GoBytes} {p : Payload} (h : defaultPayload b = some p) :
    p.data = b.getD [] := by
  unfold defaultPayload at h
  split at h
  · rename_i hempty
    cases h
    exact hempty.symm
  · exact data_of_bind_payload h

/-- A line that reads as a request reads as the request that was meant. -/
theorem means_of_decodeLine {req : ClientRequest} {request : Request}
    (h : decodeLine (requestLine req) = some request) : Means req request := by
  cases req with
  | getStatus =>
    rw [decodeLine_getStatus] at h
    cases h
    trivial
  | encrypt nonce aad plaintext =>
    rw [decodeLine_encrypt] at h
    obtain ⟨n, hn, h⟩ := Option.bind_eq_some_iff.mp h
    obtain ⟨a, ha, h⟩ := Option.bind_eq_some_iff.mp h
    obtain ⟨p, hp, h⟩ := Option.bind_eq_some_iff.mp h
    cases h
    exact ⟨data_of_bind_payload hn, data_of_defaultPayload ha, data_of_bind_payload hp⟩
  | decrypt frame =>
    rw [decodeLine_decrypt] at h
    obtain ⟨f, hf, h⟩ := Option.bind_eq_some_iff.mp h
    cases h
    exact data_of_bind_payload hf
  | rotateKey keyId algo material =>
    rw [decodeLine_rotateKey] at h
    obtain ⟨m, hm, h⟩ := Option.bind_eq_some_iff.mp h
    cases h
    exact ⟨rfl, rfl, data_of_bind_payload hm⟩

/-- With all slices given, a line that fits into memory reads as a request. -/
theorem decodeLine_of_slicesGiven {req : ClientRequest} (hgiven : SlicesGiven req)
    (hfits : (requestLine req).length ≤ isizeMax) :
    ∃ request, decodeLine (requestLine req) = some request := by
  cases req with
  | getStatus => exact ⟨.getStatus, decodeLine_getStatus⟩
  | encrypt nonce aad plaintext =>
    obtain ⟨n, hn, -⟩ := bind_payload hfits rfl List.mem_cons_self hgiven.1
    obtain ⟨a, ha, -⟩ := defaultPayload_eq hfits
    obtain ⟨p, hp, -⟩ := bind_payload hfits rfl (List.mem_append_right _ List.mem_cons_self)
      hgiven.2
    rw [decodeLine_encrypt, hn, ha, hp]
    exact ⟨_, rfl⟩
  | decrypt frame =>
    obtain ⟨f, hf, -⟩ := bind_payload hfits rfl List.mem_cons_self hgiven
    rw [decodeLine_decrypt, hf]
    exact ⟨_, rfl⟩
  | rotateKey keyId algo material =>
    obtain ⟨m, hm, -⟩ := bind_payload hfits rfl
      (List.mem_cons_of_mem _ (List.mem_cons_of_mem _ List.mem_cons_self)) hgiven
    rw [decodeLine_rotateKey, hm]
    exact ⟨_, rfl⟩

/-! ## The answers of the handlers -/

/-- The kinds of answer there are to a request. -/
def Kind : Request → Response → Prop
  | .getStatus, .status _ => True
  | .setPolicy _, .ok => True
  | .rotateKey _, .ok | .rotateKey _, .error _ _ => True
  | .encrypt _, .ciphertext _ | .encrypt _, .error _ _ => True
  | .decrypt _, .plaintext _ | .decrypt _, .error _ _ => True
  | _, _ => False

/-- A handler that has answered has answered in kind. -/
def InKind (t : Task) : Prop := ∀ response, t.pc = .done response → Kind t.request response

theorem Move.inKind {crate : Gcm.Crate} {j : Nat} {sh sh' : Shared} {t t' : Task}
    (h : Cryptod.Move crate j sh t sh' t') : InKind t' := by
  intro response hdone
  cases h with
  | status hmove =>
    cases hmove with
    | answer =>
      cases hdone
      trivial
    | _ => cases hdone
  | prepared | storedProvider | storedAlgo | sealCopied | openCopied => cases hdone
  | _ =>
    cases hdone
    trivial

theorem inKind_run {crate : Gcm.Crate} {s : CryptodState} {d : Daemon}
    {acts : List (Pool.Act Request UInt64)}
    (h : Run (Pool.Step (Cryptod.daemon crate)) (idle s) acts d) : ∀ t ∈ d.tasks, InKind t := by
  have hkeep : ∀ (d : Daemon) (a : Pool.Act Request UInt64) (d' : Daemon),
      (∀ t ∈ d.tasks, InKind t) → Pool.Step (Cryptod.daemon crate) d a d' →
        ∀ t ∈ d'.tasks, InKind t := by
    intro d a d' hd hstep t ht
    obtain ⟨request, -, rfl⟩ | ⟨i, elapsed, u, sh', u', -, hu, hmove, rfl⟩ := daemon_cases hstep
    · rcases List.mem_append.mp ht with ht | ht
      · exact hd t ht
      · rw [List.mem_singleton.mp ht]
        exact fun _ hdone => by cases hdone
    · rcases List.mem_or_eq_of_mem_set ht with ht | rfl
      · exact hd t ht
      · exact Move.inKind hmove
  refine h.invariant ?_ hkeep
  exact fun t ht => absurd ht (not_mem_idle s t)

/-- An answer in kind to the request that was meant is a result or an `ErrorResponse`. -/
theorem fromServer_delivered {req : ClientRequest} {request : Request} {response : Response}
    (hmeans : Means req request) (hkind : Kind request response) :
    (delivered req response).FromServer := by
  cases req <;> cases request <;> first | exact hmeans.elim | skip
  all_goals cases response <;> first | exact hkind.elim | trivial

/-! ## A call -/

namespace Platform

/-- The platform with the decoders of the client's results. -/
def decoding (pf : Platform) : Platform :=
  { pf with
    statusReport := unmarshal pf.responseError statusReportOf
    bytesPayload := unmarshal pf.responseError bytesPayloadOf }

end Platform

variable {pf : Platform} {s₀ : CryptodState} {acts : List Act} {w : World}

/-- The handler that ran for the call, and no other did: it had the arguments of the call, and the
call returns its answer. -/
structure Delivered (w : World) (i : Nat) (req : ClientRequest) (r : Returned) (hd : Handling)
    (request : Request) (response : Response) : Prop where
  handled : hd ∈ w.handlings
  own : hd.line = tagged i (requestLine req)
  once : ∀ hd' ∈ w.handlings, mentions i hd'.line = true → hd' = hd
  answered : w.daemon.tasks[hd.task]? = some ⟨request, .done response⟩
  means : Means req request
  returned : r = delivered req response
  fromServer : r.FromServer

/-- The server refused the line of the call, and ran no handler for it. -/
structure Refused (w : World) (i : Nat) (req : ClientRequest) (r : Returned) : Prop where
  returned : ∃ message, r = .errorResponse ⟨400, message⟩
  unhandled : ∀ hd ∈ w.handlings, mentions i hd.line = false
  reason : SlicesGiven req → isizeMax < (requestLine req).length

/-- A call that has read a line was refused because its own line reads as no request, or returns the
answer of its handler. -/
theorem refused_or_delivered {line : List Tagged} {req : ClientRequest} {r : Returned} {i : Nat}
    (hrun : Run (Step pf.decoding) (new s₀) acts w)
    (ht : w.ipc.calls[i]? = some ⟨.request req, .done line r⟩) (hne : line ≠ []) :
    decodeLine (requestLine req) = none ∧ Refused w i req r ∨
      ∃ hd request response, Delivered w i req r hd request response := by
  obtain ⟨xs, hipc⟩ := run_ipc hrun
  -- the line is the whole answer to the line of the call
  obtain ⟨req', n, response, hreq, hexchange, -, hreply⟩ := System.run_reads hipc ht hne
  cases hreq
  have hr : r = delivered req response := hreply.trans (reply_responseLine req response)
  have hmem := List.mem_of_getElem? hexchange
  have hmentions : mentions i (tagged i (requestLine req)) = true :=
    mentions_tagged i _ (by simp [requestLine])
  obtain ⟨hdecode, message, hmessage⟩ | ⟨hd, hhd, hline, t, htask, hpc⟩ :=
    (run_linked hrun).answers _ hmem
  · left
    have hunread := (decode_requestLine pf.decoding i req).symm.trans hdecode
    rw [show response = .error 400 message from hmessage] at hr
    refine ⟨hunread, ⟨message, ?_⟩, fun hd hhd => ?_, fun hgiven => ?_⟩
    · cases req <;> exact hr
    · -- the refusal was the one uptake of the call
      by_contra hi
      have hone := (System.run_refusals hipc).2 i
      have hrefused : 0 < w.ipc.refusals pf.decoding.serde i := by
        apply List.countP_pos_iff.mpr
        exact ⟨_, hmem, (Bool.and_eq_true _ _).mpr ⟨hmentions, by rw [hdecode]; rfl⟩⟩
      have hstarted : 0 < w.ipc.executions i := by
        rw [(run_linked hrun).executions]
        exact List.countP_pos_iff.mpr ⟨hd, hhd, by simpa using hi⟩
      simp only [System.tokens] at hone
      omega
    · by_contra hfits
      obtain ⟨request, hrequest⟩ := decodeLine_of_slicesGiven hgiven (Nat.le_of_not_lt hfits)
      rw [hrequest] at hunread
      cases hunread
  · right
    obtain ⟨t', htask', hdecode⟩ := (run_linked hrun).records hd hhd
    rw [htask] at htask'
    cases htask'
    rw [hline] at hdecode
    have hrequest := (decode_requestLine pf.decoding i req).symm.trans hdecode
    have hmeans := means_of_decodeLine hrequest
    obtain ⟨ys, hdaemon⟩ := run_daemon hrun
    have hkind := inKind_run hdaemon t (List.mem_of_getElem? htask) response hpc
    obtain ⟨request, pc⟩ := t
    cases hpc
    refine ⟨hd, request, response, hhd, hline, fun hd' hhd' hi => ?_, htask, hmeans, hr, ?_⟩
    · exact handling_unique hrun hhd' hhd hi (hline ▸ hmentions)
    · rw [hr]
      exact fromServer_delivered hmeans hkind

theorem returned_of_line {line : List Tagged} {req : ClientRequest} {r : Returned} {i : Nat}
    (hrun : Run (Step pf.decoding) (new s₀) acts w)
    (ht : w.ipc.calls[i]? = some ⟨.request req, .done line r⟩) (hne : line ≠ []) :
    Refused w i req r ∨ ∃ hd request response, Delivered w i req r hd request response :=
  (refused_or_delivered hrun ht hne).imp_left And.right

/-- What a call of the client returns.  In every run of the agent and the daemon, with any failures
of the socket: a call that has read nothing fails; otherwise it returns the answer of the one
handler that ran for it, which had exactly its arguments, or it was refused as no request, and that
only with a slice missing or a line longer than memory. -/
theorem call_delivered (pf : Platform) (s₀ : CryptodState) (acts : List Act) (w : World)
    (hrun : Run (Step pf.decoding) (new s₀) acts w) (i : Nat) (req : ClientRequest)
    (line : List Tagged) (r : Returned)
    (ht : w.ipc.calls[i]? = some ⟨.request req, .done line r⟩) :
    (line = [] ∧ ∃ e, r = .failed e) ∨ Refused w i req r ∨
      ∃ hd request response, Delivered w i req r hd request response := by
  obtain ⟨xs, hipc⟩ := run_ipc hrun
  obtain hfailed | ⟨hne, -⟩ := System.run_ends hipc ht
  · exact .inl hfailed
  · exact .inr (returned_of_line hrun ht hne)

/-- Execute a schedule. -/
def World.exec (pf : Platform) (w : World) : List Act → Option World
  | [] => some w
  | a :: as => (World.next pf w a).bind fun w' => World.exec pf w' as

theorem run_of_exec {w' : World} (h : World.exec pf w acts = some w') :
    Run (Step pf) w acts w' := by
  induction acts generalizing w with
  | nil =>
    cases h
    exact .nil
  | cons a acts ih =>
    obtain ⟨u, hu, hacts⟩ := Option.bind_eq_some_iff.mp h
    exact Run.cons hu (ih hacts)

namespace Kat

/-- The two bytes of text under a nonce. -/
def sealCall : ClientRequest := .encrypt (some Gcm.Kat.nonce) none (some Gcm.Kat.text)

/-- The call is made on a fresh connection, and nothing fails. -/
def sealActs : List Act :=
  [.start (.request sealCall), .client 0 .lock, .client 0 (.enter (.ok ()))] ++
    List.replicate 78 (.client 0 .write) ++ List.replicate 78 (.server 0 .receive) ++
    List.replicate 2 (.task 0 0) ++ [.server 0 (.respond (.ciphertext Gcm.Kat.frame256))] ++
    List.replicate 100 (.server 0 .send) ++ List.replicate 100 (.client 0 .fill) ++
    [.client 0 .readLine]

def sealLine : List Tagged := tagged 0 (Ipc.requestLine sealCall)

def frameLine : List Tagged :=
  tagged 0 (platform.serde.responseLine (.ciphertext Gcm.Kat.frame256))

/-- Where that leaves the world. -/
def sealedWorld : World where
  posts := []
  ipc := {
    conns := [⟨true, [], [], .reading []⟩]
    log := ⟨[sealLine], [⟨sealLine, .ciphertext Gcm.Kat.frame256⟩]⟩
    mu := none
    conn := some 0
    reader := some ⟨0, []⟩
    calls := [⟨.request sealCall, .done frameLine (.bytes Gcm.Kat.frame256)⟩] }
  daemon := {
    shared := ⟨Cryptod.Kat.rotated.countSealed, none⟩
    tasks := [⟨.encrypt Cryptod.Kat.encryptText, .done (.ciphertext Gcm.Kat.frame256)⟩] }
  handlings := [⟨0, 0, sealLine⟩]

theorem sealedWorld_run :
    Run (Step platform.decoding) (new Cryptod.Kat.rotated) sealActs sealedWorld :=
  run_of_exec (by decide +kernel)

end Kat

/-- The frame comes back to the call. -/
theorem call_delivered_sealed : ∃ hd request response,
    Delivered Kat.sealedWorld 0 Kat.sealCall (.bytes Gcm.Kat.frame256) hd request response := by
  obtain ⟨hnil, -⟩ | hrefused | hdelivered := call_delivered Kat.platform Cryptod.Kat.rotated
    Kat.sealActs Kat.sealedWorld Kat.sealedWorld_run 0 Kat.sealCall Kat.frameLine
    (.bytes Gcm.Kat.frame256) rfl
  · cases hnil
  · obtain ⟨message, hmessage⟩ := hrefused.returned
    cases hmessage
  · exact hdelivered

end Node

end SmartSfp
