import SmartSfp.Node.Flight

/-!
# Report — what the operator is told of a rotation

From the status of an HTTP answer back to the daemon: a success is the `Ok` of the handler started
for the request's own line, which has stored the key of the request; an error is the daemon's, or
tells that there was no answer.
-/

namespace SmartSfp

namespace Node

open Lib Ipc Cryptod Httpapi World

variable {pf : Platform} {w : World} {s₀ : CryptodState} {i h : Nat} {p : Post}

/-! ## The line of a call -/

theorem mentions_tagged (i : Nat) (bytes : Octets) (hne : bytes ≠ []) :
    mentions i (tagged i bytes) = true := by
  cases bytes with
  | nil => exact absurd rfl hne
  | cons b bytes => simp [mentions]

theorem decode_requestLine (pf : Platform) (i : Nat) (req : ClientRequest) :
    pf.serde.decode (tagged i (pf.go.requestLine req)) = decodeLine (Ipc.requestLine req) := by
  have hline : pf.go.requestLine req = Ipc.requestLine req := rfl
  have htext : pf.serde.fromUtf8 = Text.fromUtf8 := rfl
  rw [Serde.decode, hline, bytesOf_tagged, htext, decodeLine]
  cases Text.fromUtf8 (Ipc.requestLine req) with
  | none => rfl
  | some text =>
    rw [Option.bind_some]
    simp only [Platform.serde, serdeJson]
    cases requestOfText text with
    | none => rfl
    | some request => rfl

/-- What the server reads in the line of a rotation is the rotation. -/
theorem rotateKey_of_decodeLine {keyId : UInt32} {algo : UInt8} {material : Octets}
    {request : Request}
    (h : decodeLine (Ipc.requestLine (.rotateKey keyId algo (some material))) = some request) :
    ∃ m, request = .rotateKey ⟨keyId, algo, m⟩ ∧ m.data = material := by
  rw [decodeLine_rotateKey] at h
  obtain ⟨m, hm, hrequest⟩ := Option.bind_eq_some_iff.mp h
  cases hrequest
  refine ⟨m, rfl, ?_⟩
  simp only [Option.bind_some, payload] at hm
  split at hm
  · cases hm
    rfl
  · cases hm

theorem reply_rotateKey_cases (go : GoJson) (keyId : UInt32) (algo : UInt8) (material : GoBytes)
    (line : Octets) : Client.reply go (.rotateKey keyId algo material) line = .ok ∨
      (∃ e, Client.reply go (.rotateKey keyId algo material) line = .errorResponse e) ∨
      ∃ e, Client.reply go (.rotateKey keyId algo material) line = .failed e := by
  unfold Client.reply
  cases go.envelope line with
  | error e => exact .inr (.inr ⟨_, rfl⟩)
  | ok env =>
    simp only [Client.rotateKey, Client.switchResult]
    split
    · exact .inl rfl
    · split
      · exact .inr (.inl ⟨_, rfl⟩)
      · exact .inr (.inr ⟨_, rfl⟩)

theorem mirroredStatus_eq (code : UInt32) : mirroredStatus code =
    if 400 ≤ code ∧ code < 500 ∨ code = 501 then code.toNat else 500 := by
  unfold mirroredStatus
  by_cases hclient : 400 ≤ code ∧ code < 500
  · rw [if_pos hclient, if_pos (.inl hclient)]
  · rw [if_neg hclient]
    by_cases hcode : code = 501
    · rw [if_pos hcode, if_pos (.inr hcode), hcode]
      rfl
    · rw [if_neg hcode, if_neg (not_or.mpr ⟨hclient, hcode⟩)]

/-! ## A success -/

/-- An answer below 400 tells that the handler of the call's own line has returned `Ok`. -/
theorem performed_of_status {acts : List Act} {answer : Answer}
    (hrun : Run (Step pf) (new s₀) acts w) (hp : w.posts[h]? = some p)
    (hanswer : p.answer = some answer) (hstatus : answer.status < 400) :
    ∃ keyId algo material i hd q, p.call = some i ∧
      beforeRotateKey pf.decodeBody p.method p.body = .ok (keyId, algo, material) ∧
      hd ∈ w.handlings ∧ mentions i hd.line = true ∧
      w.daemon.tasks[hd.task]? = some ⟨.rotateKey q, .done .ok⟩ ∧
      q.keyId = keyId ∧ q.algo = algo ∧ q.material.data = material := by
  have hagrees := run_agrees hrun p (List.mem_of_getElem? hp)
  obtain ⟨xs, hipc⟩ := run_ipc hrun
  unfold Post.Agrees at hagrees
  cases hcall : p.call with
  | none =>
    rw [hcall] at hagrees
    have hle := (status_of_beforeRotateKey (hagrees answer hanswer)).1
    omega
  | some i =>
    rw [hcall] at hagrees
    obtain ⟨keyId, algo, material, pc, hbefore, ht, hreturn⟩ := hagrees
    obtain ⟨line, r, rfl, rfl⟩ := hreturn answer hanswer
    -- the call returned without an error
    obtain ⟨hnoError, hnoFailure⟩ := status_of_afterRotateKey hstatus
    have hr : r = .ok := by
      obtain ⟨-, e, hfailed⟩ | ⟨-, hreply⟩ := System.run_ends hipc ht
      · exact absurd hfailed (hnoFailure e)
      · obtain hok | ⟨e, he⟩ | ⟨e, he⟩ := reply_rotateKey_cases pf.go keyId algo (some material)
          (bytesOf line)
        · exact hreply.trans hok
        · exact absurd (hreply.trans he) (hnoError e)
        · exact absurd (hreply.trans he) (hnoFailure e)
    subst hr
    -- so it read the answer of the server to its own line, which can only be `Ok`
    obtain ⟨req, n, response, hreq, hexchange, -, hreply⟩ :=
      (System.run_inv hipc).paired i _ line .ok ht rfl trivial
    cases hreq
    have hresponse : response = .ok := by
      have hreply' := hreply.trans
        (rotateKey_responseLine keyId algo (some material) response)
      cases response with
      | ok => rfl
      | _ => cases hreply'
    subst hresponse
    -- which is what the handler started for that line has returned
    obtain ⟨-, message, hmessage⟩ | ⟨hd, hhd, hline, t, htask, hpc⟩ :=
      (run_linked hrun).answers _ (List.mem_of_getElem? hexchange)
    · cases hmessage
    · obtain ⟨t', htask', hdecode⟩ := (run_linked hrun).records hd hhd
      rw [htask] at htask'
      cases htask'
      rw [hline, decode_requestLine] at hdecode
      obtain ⟨m, hrequest, hm⟩ := rotateKey_of_decodeLine hdecode
      obtain ⟨request, pc⟩ := t
      cases hrequest
      cases hpc
      refine ⟨keyId, algo, material, i, hd, _, rfl, hbefore, hhd, ?_, htask, rfl, rfl, hm⟩
      rw [hline]
      exact mentions_tagged i _ (by simp [GoJson.requestLine])

/-! ## An error -/

/-- After the daemon has answered a line of the call with an error, no handler of the call has come
further than to that error. -/
theorem refused_of_error {acts : List Act} {x : Ipc.Exchange} {code : UInt32} {message : String}
    (hrun : Run (Step pf) (new s₀) acts w) (hx : x ∈ w.ipc.log.answered)
    (hi : mentions i x.line = true) (hresponse : x.response = .error code message) {hd : Handling}
    (hhd : hd ∈ w.handlings) (hi' : mentions i hd.line = true) :
    ∃ t, w.daemon.tasks[hd.task]? = some t ∧ t.pc = .done (.error code message) := by
  obtain ⟨xs, hipc⟩ := run_ipc hrun
  obtain ⟨hdecode, -⟩ | ⟨hd', hhd', hline, t, ht, hpc⟩ := (run_linked hrun).answers x hx
  · -- a refused line and a handled one would both be the one uptake of the call
    have hone := (System.run_refusals hipc).2 i
    have hrefused : 0 < w.ipc.refusals pf.serde i :=
      List.countP_pos_iff.mpr ⟨x, hx, by simp [hi, hdecode]⟩
    have hstarted : 0 < w.ipc.executions i := by
      rw [(run_linked hrun).executions]
      exact List.countP_pos_iff.mpr ⟨hd, hhd, hi'⟩
    simp only [System.tokens] at hone
    omega
  · rw [handling_unique hrun hhd hhd' hi' (hline.symm ▸ hi)]
    exact ⟨t, ht, hpc.trans (congrArg Pc.done hresponse)⟩

/-! ## The report -/

/-- The body decodes, and so does the hexadecimal text in it. -/
def Platform.WellFormed (pf : Platform) (body : Octets) (req : RotateKeyRequest)
    (material : Octets) : Prop :=
  pf.decodeBody body = .ok req ∧ Hex.decodeString req.materialHex = .ok material

/-- The key that a request asks for. -/
structure KeyOf (req : RotateKeyRequest) (material : Octets) (key : KeyHandle) : Prop where
  id_eq : key.id = req.keyId
  algo_eq : AlgoId.fromU8 req.algo = some key.algo
  material_eq : key.material = material
  length_eq : material.length = key.algo.keyLen

/-- What the HTTP request `p` was told agrees with what became of its rotation since it arrived:
`before` is what the daemon held then, and `log` has the stores since. -/
structure Reported (pf : Platform) (before : CryptodState) (w : World) (log : List KeyEvent)
    (p : Post) : Prop where
  /-- A success: the key that was asked for was stored, and is in force. -/
  performed : ∀ answer, p.answer = some answer → answer.status = 200 →
    ∃ req material j key, pf.WellFormed p.body req material ∧ KeyOf req material key ∧
      .stored j key ∈ log ∧ w.daemon.shared.state.activeKey = some key
  /-- The line the call has read is an error. -/
  mirrored : ∀ answer i call line r code message, p.answer = some answer → p.call = some i →
    w.ipc.calls[i]? = some ⟨call, .done line r⟩ →
    bytesOf line = pf.serde.responseLine (.error code message) →
      answer = ⟨if 400 ≤ code ∧ code < 500 ∨ code = 501 then code.toNat else 500, .error message⟩
  /-- The body is well formed; the call may have returned without having read a line. -/
  transport : ∀ answer req material, p.answer = some answer → p.method = "POST" →
    pf.WellFormed p.body req material →
      ∃ i line r, p.call = some i ∧ w.ipc.calls[i]? =
          some ⟨.request (.rotateKey req.keyId req.algo (some material)), .done line r⟩ ∧
        (line = [] → answer.status = 502)
  /-- The daemon has answered a line of the call with an error, whether or not it was read. -/
  refused : ∀ i x code message, p.call = some i → x ∈ w.ipc.log.answered →
    mentions i x.line = true → x.response = .error code message →
      SameKey before w.daemon.shared.state ∧
        ∀ answer, p.answer = some answer → ¬(200 ≤ answer.status ∧ answer.status < 300)

theorem performed_of_flight {acts : List Act} {before : CryptodState} {log : List KeyEvent}
    {answer : Answer} (hrun : Run (Step pf) (new s₀) acts w) (hp : w.posts[h]? = some p)
    (hflight : Flight h before w log) (hanswer : p.answer = some answer)
    (hstatus : answer.status = 200) :
    ∃ req material j key, pf.WellFormed p.body req material ∧ KeyOf req material key ∧
      .stored j key ∈ log ∧ w.daemon.shared.state.activeKey = some key := by
  obtain ⟨keyId, algo, material, i, hd, q, hcall, hbefore, hhd, hi, ht, hid, halgo, hmaterial⟩ :=
    performed_of_status hrun hp hanswer (by omega)
  obtain ⟨req, -, hbody, hhex, rfl, rfl⟩ := beforeRotateKey_eq_ok hbefore
  have hown : Own w h hd.task :=
    ⟨i, by rw [World.callOf, hp]; exact hcall, hd, hhd, rfl, hi⟩
  obtain ⟨c, hfor, hcommit, hstored⟩ := hflight.progress hd.task q _ hown ht
  refine ⟨req, material, hd.task, c.newKey, ⟨hbody, hhex⟩, ?_, hstored, hcommit.2.2⟩
  have hwellFormed := hfor.wellFormed
  rw [KeyHandle.WellFormed, hfor.key_eq, hmaterial] at hwellFormed
  exact {
    id_eq := by rw [hfor.key_eq, hid]
    algo_eq := by rw [← halgo, hfor.algo_eq, hfor.key_eq]
    material_eq := by rw [hfor.key_eq, hmaterial]
    length_eq := by rw [hfor.key_eq]; exact hwellFormed }

theorem mirrored_of_line {acts : List Act} {answer : Answer} {call : Call} {line : List Tagged}
    {r : Returned} {code : UInt32} {message : String} (hrun : Run (Step pf) (new s₀) acts w)
    (hp : w.posts[h]? = some p) (hanswer : p.answer = some answer) (hcall : p.call = some i)
    (ht : w.ipc.calls[i]? = some ⟨call, .done line r⟩)
    (hline : bytesOf line = pf.serde.responseLine (.error code message)) :
    answer =
      ⟨if 400 ≤ code ∧ code < 500 ∨ code = 501 then code.toNat else 500, .error message⟩ := by
  have hagrees := run_agrees hrun p (List.mem_of_getElem? hp)
  simp only [Post.Agrees, hcall] at hagrees
  obtain ⟨keyId, algo, material, pc, -, ht', hreturn⟩ := hagrees
  obtain ⟨line', r', rfl, rfl⟩ := hreturn answer hanswer
  rw [ht] at ht'
  cases ht'
  obtain ⟨xs, hipc⟩ := run_ipc hrun
  obtain ⟨hnil, -⟩ | ⟨-, hreply⟩ := System.run_ends hipc ht
  · rw [hnil] at hline
    have hlen := congrArg List.length hline
    simp [bytesOf, Serde.responseLine] at hlen
  · rw [hline] at hreply
    have hreply' := hreply.trans (rotateKey_responseLine keyId algo (some material)
      (.error code message))
    rw [hreply', ← mirroredStatus_eq]
    rfl

theorem transport_of_line {acts : List Act} {answer : Answer} {req : RotateKeyRequest}
    {material : Octets} (hrun : Run (Step pf) (new s₀) acts w) (hp : w.posts[h]? = some p)
    (hanswer : p.answer = some answer) (hmethod : p.method = "POST")
    (hbody : pf.WellFormed p.body req material) :
    ∃ i line r, p.call = some i ∧ w.ipc.calls[i]? =
        some ⟨.request (.rotateKey req.keyId req.algo (some material)), .done line r⟩ ∧
      (line = [] → answer.status = 502) := by
  have hagrees := run_agrees hrun p (List.mem_of_getElem? hp)
  have hbefore : beforeRotateKey pf.decodeBody p.method p.body =
      .ok (req.keyId, req.algo, material) := by
    simp only [beforeRotateKey, hmethod, hbody.1, hbody.2]
    rfl
  cases hcall : p.call with
  | none =>
    simp only [Post.Agrees, hcall, hbefore] at hagrees
    cases hagrees answer hanswer
  | some i =>
    simp only [Post.Agrees, hcall, hbefore] at hagrees
    obtain ⟨keyId, algo, material', pc, hargs, ht, hreturn⟩ := hagrees
    cases hargs
    obtain ⟨line, r, rfl, rfl⟩ := hreturn answer hanswer
    refine ⟨i, line, r, rfl, ht, fun hline => ?_⟩
    obtain ⟨xs, hipc⟩ := run_ipc hrun
    obtain ⟨-, e, rfl⟩ | ⟨hne, -⟩ := System.run_ends hipc ht
    · rfl
    · exact absurd hline hne

theorem refused_of_flight {acts : List Act} {before : CryptodState} {log : List KeyEvent}
    {x : Ipc.Exchange} {code : UInt32} {message : String} (hrun : Run (Step pf) (new s₀) acts w)
    (hp : w.posts[h]? = some p) (hflight : Flight h before w log) (hcall : p.call = some i)
    (hx : x ∈ w.ipc.log.answered) (hi : mentions i x.line = true)
    (hresponse : x.response = .error code message) :
    SameKey before w.daemon.shared.state ∧
      ∀ answer, p.answer = some answer → ¬(200 ≤ answer.status ∧ answer.status < 300) := by
  have hcallOf : w.callOf h = some i := by
    rw [World.callOf, hp]
    exact hcall
  constructor
  · -- the rotation's handler, if there is one, has returned that error
    by_cases hbegun : ∃ j q pc, Own w h j ∧ w.daemon.tasks[j]? = some ⟨.rotateKey q, pc⟩
    · obtain ⟨j, q, pc, hj, ht⟩ := hbegun
      have hprogress := hflight.progress j q pc hj ht
      obtain ⟨i', hi', hd, hhd, rfl, hmem⟩ := hj
      rw [hcallOf] at hi'
      cases hi'
      obtain ⟨t, ht', hpc⟩ := refused_of_error hrun hx hi hresponse hhd hmem
      rw [ht] at ht'
      cases ht'
      cases hpc
      exact hprogress
    · exact hflight.unbegun fun j q pc hj ht => hbegun ⟨j, q, pc, hj, ht⟩
  · -- a success would be that of a handler which has returned an error
    rintro answer hanswer ⟨-, hstatus⟩
    obtain ⟨_, _, _, i', hd, q, hcall', -, hhd, hi', ht, -⟩ :=
      performed_of_status hrun hp hanswer (by omega)
    rw [hcall] at hcall'
    cases hcall'
    obtain ⟨t, ht', hpc⟩ := refused_of_error hrun hx hi hresponse hhd hi'
    rw [ht] at ht'
    cases ht'
    cases hpc

/-- A rotation reported is the rotation performed.  From any state the agent and the daemon can
reach, a request with any body arrives; whatever then happens on the socket, as long as no other
rotation is in flight, what the request is told agrees with what became of its rotation. -/
theorem rotation_reported (pf : Platform) (s₀ : CryptodState) (acts₀ : List Act) (w₀ : World)
    (hreach : Run (Step pf) (new s₀) acts₀ w₀) (body : Octets) (acts : List Act) (w : World)
    (log : List KeyEvent)
    (hrun : Run (Recorded keyEventsOf (When (Alone w₀.posts.length) (Step pf)))
      (w₀.posted "POST" body, []) acts (w, log)) :
    ∃ p, w.posts[w₀.posts.length]? = some p ∧ p.method = "POST" ∧ p.body = body ∧
      Reported pf w₀.daemon.shared.state w log p := by
  obtain ⟨⟨acts', hacts'⟩, ⟨p, hp, hmethod, hbody⟩, hflight⟩ := run_flight hreach hrun
  refine ⟨p, hp, hmethod, hbody, ?_, ?_, ?_, ?_⟩
  · intro answer hanswer hstatus
    exact performed_of_flight hacts' hp hflight hanswer hstatus
  · intro answer i call line r code message hanswer hcall ht hline
    exact mirrored_of_line hacts' hp hanswer hcall ht hline
  · intro answer req material hanswer hpost hwell
    exact transport_of_line hacts' hp hanswer hpost hwell
  · intro i x code message hcall hx hi hresponse
    exact refused_of_flight hacts' hp hflight hcall hx hi hresponse

namespace Kat

/-- A rotation to key 9, with a member that the handler does not know. -/
def body : Octets := Text.utf8 ("\x7b\"key_id\":9,\"algo\":1,\"by\":\"ops\"," ++
  "\"material_hex\":\"33333333333333333333333333333333\"\x7d")

def request : RotateKeyRequest := ⟨9, 1, List.replicate 32 0x33⟩

def platform : Platform where
  crate := Gcm.kat
  decodeBody b := if b = body then .ok request else .error "unexpected EOF"
  socket := "/run/acm/cryptod.sock"
  quoted _ := "\"\""
  requestError _ := "expected value at line 1 column 1"
  responseError _ := "unexpected end of JSON input"
  statusReport _ := .error "unexpected end of JSON input"
  bytesPayload _ := .error "unexpected end of JSON input"

/-- The request is handled on a fresh connection, and nothing fails. -/
def acts : List Act :=
  [.handle 0, .client 0 .lock, .client 0 (.enter (.ok ()))] ++
    List.replicate 93 (.client 0 .write) ++ List.replicate 93 (.server 0 .receive) ++
    List.replicate 4 (.task 0 0) ++ [.server 0 (.respond .ok)] ++
    List.replicate 16 (.server 0 .send) ++ List.replicate 16 (.client 0 .fill) ++
    [.client 0 .readLine, .handle 0]

def call : ClientRequest := .rotateKey 9 1 (some Gcm.Kat.material128)

def line : List Tagged := tagged 0 (Ipc.requestLine call)

/-- Where that leaves the world. -/
def performed : World where
  posts := [⟨"POST", body, some 0, some ⟨200, .result "ok"⟩⟩]
  ipc := {
    conns := [⟨true, [], [], .reading []⟩]
    log := ⟨[line], [⟨line, .ok⟩]⟩
    mu := none
    conn := some 0
    reader := some ⟨0, []⟩
    calls := [⟨.request call, .done (tagged 0 (platform.serde.responseLine .ok)) .ok⟩] }
  daemon := {
    shared :=
      ⟨⟨Cryptod.Kat.provider128, .aes128Gcm, some Gcm.Kat.handle128, 0, 0, 0⟩, none⟩
    tasks := [⟨.rotateKey Cryptod.Kat.rotate128, .done .ok⟩] }
  handlings := [⟨0, 0, line⟩]

theorem performed_run :
    Run (Recorded keyEventsOf (When (Alone 0) (Step platform)))
      ((new Cryptod.Kat.fresh).posted "POST" body, []) acts
      (performed, [.stored 0 Gcm.Kat.handle128]) :=
  run_of_execAlone (by decide +kernel)

end Kat

/-- The daemon starts, and the first request is told of a success. -/
theorem rotation_reported_kat : ∃ req material j key,
    Kat.platform.WellFormed Kat.body req material ∧ KeyOf req material key ∧
      .stored j key ∈ [KeyEvent.stored 0 Gcm.Kat.handle128] ∧
      Kat.performed.daemon.shared.state.activeKey = some key := by
  obtain ⟨p, hp, -, -, hreported⟩ := rotation_reported Kat.platform Cryptod.Kat.fresh [] _ .nil
    Kat.body Kat.acts Kat.performed [.stored 0 Gcm.Kat.handle128] Kat.performed_run
  cases hp
  exact hreported.performed _ rfl rfl

end Node

end SmartSfp
