import SmartSfp.Ipc.Reply
import SmartSfp.Ipc.Uptake

/-!
# Results — what the methods of the Go client return

`json.Unmarshal` into `StatusReport` and `bytesPayload`: a member of another kind than its field is
an error, a `null` leaves the field as it is, and makes a pointer nil.  That a `[]byte` also takes
an array of numbers is left out, as no server writes that.  For every response the server can write,
the methods return its content; so a call returns the content of the answer to its own request.
-/

namespace SmartSfp

namespace Ipc

open Lib

/-! ## The fields -/

/-- A field that takes the values `read` takes; the last member counts. -/
def goField {α : Type} (read : Json → Option α) (zero : α) (name : String) (ms : Members) :
    Option α :=
  (fieldValues name ms).foldlM (fun old v => match v with
    | .null => some old
    | v => read v) zero

/-- A pointer to what `read` takes. -/
def pointerField {α : Type} (read : Json → Option α) (name : String) (ms : Members) :
    Option (Option α) :=
  (fieldValues name ms).foldlM (fun _ v => match v with
    | .null => some none
    | v => (read v).map some) none

def goBool : Json → Option Bool
  | .bool b => some b
  | _ => none

def u64 (j : Json) : Option UInt64 := (unsigned UInt64.size j).map UInt64.ofNat

/-- A `[]byte`. -/
def goBytes : Json → Option Octets
  | .str s => Base64.decodeLoose s
  | _ => none

/-! ## The results -/

def zeroReport : StatusReport := ⟨"", false, 0, "", none, 0, 0, 0⟩

/-- `json.Unmarshal` into a `StatusReport`. -/
def statusReportOf : Json → Option StatusReport
  | .null => some zeroReport
  | .obj ms => do
    let version ← stringField "version" ms
    let running ← goField goBool false "running" ms
    let uptimeS ← goField u64 0 "uptime_s" ms
    let activeProvider ← stringField "active_provider" ms
    let activeKeyId ← pointerField u32 "active_key_id" ms
    let packetsSealed ← goField u64 0 "packets_sealed" ms
    let packetsOpened ← goField u64 0 "packets_opened" ms
    let cryptoErrors ← goField u64 0 "crypto_errors" ms
    return {
      version := version
      running := running
      uptimeS := uptimeS
      activeProvider := activeProvider
      activeKeyId := activeKeyId
      packetsSealed := packetsSealed
      packetsOpened := packetsOpened
      cryptoErrors := cryptoErrors }
  | _ => none

/-- `json.Unmarshal` into a `bytesPayload`. -/
def bytesPayloadOf : Json → Option Octets
  | .null => some []
  | .obj ms => goField goBytes [] "bytes" ms
  | _ => none

/-- A text read as a result, with an error of `encoding/json` when it is none. -/
def unmarshal {α : Type} (errorText : Octets → String) (of : Json → Option α) (text : Octets) :
    Except String α :=
  match (valueOf text).bind of with
  | some a => .ok a
  | none => .error (errorText text)

/-- `encoding/json`, but for the texts of its errors. -/
def goClient (errorText : Octets → String) : GoJson :=
  goJson errorText (unmarshal errorText statusReportOf) (unmarshal errorText bytesPayloadOf)

/-- What a method returns for a response. -/
def delivered : ClientRequest → Response → Returned
  | .getStatus, .status report => .status report
  | .encrypt .., .ciphertext bytes => .bytes bytes
  | .decrypt _, .plaintext bytes => .bytes bytes
  | .rotateKey .., .ok => .ok
  | _, .error code message => .errorResponse ⟨code, message⟩
  | _, response => .failed (.unexpected response.tag)

/-! ## A result comes through -/

theorem u64_natJson (n : UInt64) : u64 (natJson n.toNat) = some n := by
  rw [u64, unsigned_natJson n.toNat_lt_size]
  simp

theorem goField_singleton {α : Type} {read : Json → Option α} {zero a : α} {name : String}
    {ms : Members} {v : Json} (hvalues : fieldValues name ms = [v]) (hnull : v ≠ .null)
    (hread : read v = some a) : goField read zero name ms = some a := by
  rw [goField, hvalues]
  cases v with
  | null => exact absurd rfl hnull
  | _ =>
    show (read _).bind _ = some a
    rw [hread]
    rfl

theorem stringField_singleton {name s : String} {ms : Members}
    (hvalues : fieldValues name ms = [.str s.toList]) : stringField name ms = some s := by
  rw [stringField, hvalues]
  show some (String.ofList s.toList) = some s
  rw [String.ofList_toList]

theorem pointerField_u32 {name : String} {ms : Members} (id : Option UInt32)
    (hvalues : fieldValues name ms = [match id with
      | none => .null
      | some id => natJson id.toNat]) : pointerField u32 name ms = some id := by
  rw [pointerField, hvalues]
  cases id with
  | none => rfl
  | some id =>
    show ((u32 (natJson id.toNat)).map some).bind _ = some (some id)
    rw [u32_natJson]
    rfl

/-- The members of a report. -/
def reportMembers (r : StatusReport) : Members :=
  [member "version" (.str r.version.toList), member "running" (.bool r.running),
    member "uptime_s" (natJson r.uptimeS.toNat),
    member "active_provider" (.str r.activeProvider.toList),
    member "active_key_id" (match r.activeKeyId with
      | none => .null
      | some id => natJson id.toNat),
    member "packets_sealed" (natJson r.packetsSealed.toNat),
    member "packets_opened" (natJson r.packetsOpened.toNat),
    member "crypto_errors" (natJson r.cryptoErrors.toNat)]

theorem u64Field_report {r : StatusReport} {name : String} {n : UInt64}
    (hvalues : fieldValues name (reportMembers r) = [natJson n.toNat]) :
    goField u64 0 name (reportMembers r) = some n :=
  goField_singleton hvalues (fun h => by cases h) (u64_natJson n)

/-- The report the server writes is the report the client has. -/
theorem statusReportOf_statusJson (r : StatusReport) : statusReportOf (statusJson r) = some r := by
  have hjson : statusJson r = .obj (reportMembers r) := rfl
  have hversion : stringField "version" (reportMembers r) = some r.version :=
    stringField_singleton rfl
  have hrunning : goField goBool false "running" (reportMembers r) = some r.running :=
    goField_singleton rfl (fun h => by cases h) rfl
  have huptime : goField u64 0 "uptime_s" (reportMembers r) = some r.uptimeS :=
    u64Field_report rfl
  have hprovider : stringField "active_provider" (reportMembers r) = some r.activeProvider :=
    stringField_singleton rfl
  have hkeyId : pointerField u32 "active_key_id" (reportMembers r) = some r.activeKeyId :=
    pointerField_u32 r.activeKeyId rfl
  have hsealed : goField u64 0 "packets_sealed" (reportMembers r) = some r.packetsSealed :=
    u64Field_report rfl
  have hopened : goField u64 0 "packets_opened" (reportMembers r) = some r.packetsOpened :=
    u64Field_report rfl
  have herrors : goField u64 0 "crypto_errors" (reportMembers r) = some r.cryptoErrors :=
    u64Field_report rfl
  simp only [hjson, statusReportOf, hversion, hrunning, huptime, hprovider, hkeyId, hsealed,
    hopened, herrors, Option.bind_eq_bind, Option.bind_some]
  rfl

theorem bytesPayloadOf_bytesObject (bytes : Octets) :
    bytesPayloadOf (bytesObject bytes) = some bytes := by
  apply goField_singleton (v := .str (Base64.encode bytes)) rfl
  · intro h
    cases h
  · exact Base64.decodeLoose_encode bytes

variable {errorText : String → String} {errorText' : Octets → String}

theorem unmarshal_jsonOctets {α : Type} {of : Json → Option α} {v : Json} {a : α}
    (h : of v = some a) : unmarshal errorText' of (jsonOctets v) = .ok a := by
  rw [unmarshal, valueOf_jsonOctets, Option.bind_some, h]

theorem getStatus_status (report : StatusReport) :
    Client.getStatus (goClient errorText') (responseEnvelope (.status report)) =
      .status report := by
  have hreport : (goClient errorText').statusReport (jsonOctets (statusJson report)) =
      .ok report := unmarshal_jsonOctets (statusReportOf_statusJson report)
  have hdata : (responseEnvelope (.status report)).data = jsonOctets (statusJson report) := rfl
  have hresult : (responseEnvelope (.status report)).result = "status" := rfl
  rw [Client.getStatus, Client.switchResult, if_pos hresult, hdata, hreport]

/-- The two methods that return bytes. -/
theorem decodeBytes_bytesObject (what : String) (bytes : Octets) :
    Client.decodeBytes (goClient errorText') what (jsonOctets (bytesObject bytes)) =
      .bytes bytes := by
  have hpayload : (goClient errorText').bytesPayload (jsonOctets (bytesObject bytes)) = .ok bytes :=
    unmarshal_jsonOctets (bytesPayloadOf_bytesObject bytes)
  rw [Client.decodeBytes, hpayload]

theorem encrypt_ciphertext (bytes : Octets) :
    Client.encrypt (goClient errorText') (responseEnvelope (.ciphertext bytes)) = .bytes bytes := by
  have hresult : (responseEnvelope (.ciphertext bytes)).result = "ciphertext" := rfl
  rw [Client.encrypt, Client.switchResult, if_pos hresult]
  exact decodeBytes_bytesObject _ bytes

theorem decrypt_plaintext (bytes : Octets) :
    Client.decrypt (goClient errorText') (responseEnvelope (.plaintext bytes)) = .bytes bytes := by
  have hresult : (responseEnvelope (.plaintext bytes)).result = "plaintext" := rfl
  rw [Client.decrypt, Client.switchResult, if_pos hresult]
  exact decodeBytes_bytesObject _ bytes

/-- A method that gets another result. -/
theorem switchResult_other {want : String} {decode : Octets → Returned} {response : Response}
    (h : response.tag ≠ want) :
    Client.switchResult (goClient errorText') want decode (responseEnvelope response) =
      match response with
      | .error code message => .errorResponse ⟨code, message⟩
      | other => .failed (.unexpected other.tag) := by
  rw [Client.switchResult, if_neg (by exact h)]
  cases response with
  | error code message =>
    exact congrArg Returned.errorResponse (errorResponse_content code message)
  | _ => rfl

/-- What a method makes of the line of a response is its content. -/
theorem reply_responseLine (req : ClientRequest) (response : Response) :
    Client.reply (goClient errorText') req ((serdeJson errorText).responseLine response) =
      delivered req response := by
  have henvelope : (goClient errorText').envelope ((serdeJson errorText).responseLine response) =
      .ok (responseEnvelope response) := envelope_responseLine response
  rw [Client.reply, henvelope]
  cases req with
  | getStatus =>
    cases response with
    | status report => exact getStatus_status report
    | _ => exact switchResult_other (by simp [Response.tag])
  | encrypt nonce aad plaintext =>
    cases response with
    | ciphertext bytes => exact encrypt_ciphertext bytes
    | _ => exact switchResult_other (by simp [Response.tag])
  | decrypt frame =>
    cases response with
    | plaintext bytes => exact decrypt_plaintext bytes
    | _ => exact switchResult_other (by simp [Response.tag])
  | rotateKey keyId algo material =>
    cases response with
    | ok => rfl
    | _ => exact switchResult_other (by simp [Response.tag])

/-! ## A line that was read -/

namespace System

variable {go : GoJson} {serde : Serde} {s s' : System} {i : Nat} {t : CallState}

/-- A step of a call changes no call but that one, and if it then has returned a line, the line is
the whole answer to its request. -/
theorem lines_of_move (h : Inv go serde s) (ht : s.calls[i]? = some t)
    (hmove : Client.Move go i t s s') :
    s'.log = s.log ∧ (s'.calls = s.calls ∨
      ∃ pc', s'.calls = s.calls.set i { t with pc := pc' } ∧
        ∀ line r, pc' = .done line r → line ≠ [] → Paired go serde s i t.call line r) := by
  have hnone (r₀ : Returned) (line : List Tagged) (r : Returned)
      (hdone : CallPc.done [] r₀ = .done line r) (hne : line ≠ []) :
      Paired go serde s i t.call line r := by
    cases hdone
    exact absurd rfl hne
  cases hmove with
  | locked hpc hmu => exact ⟨rfl, .inr ⟨_, rfl, fun _ _ hdone => by cases hdone⟩⟩
  | closed hpc hconn => exact ⟨rfl, .inr ⟨_, rfl, hnone _⟩⟩
  | closedIdle hpc hconn => exact ⟨rfl, .inr ⟨_, rfl, hnone _⟩⟩
  | reused hpc hcall hconn => exact ⟨rfl, .inr ⟨_, rfl, fun _ _ hdone => by cases hdone⟩⟩
  | dialFailed hpc hconn => exact ⟨rfl, .inr ⟨_, rfl, hnone _⟩⟩
  | dialed hpc hcall hconn => exact ⟨rfl, .inr ⟨_, rfl, fun _ _ hdone => by cases hdone⟩⟩
  | wrote hpc hconn =>
    refine ⟨rfl, .inr ⟨_, rfl, fun _ _ hdone => ?_⟩⟩
    split at hdone <;> cases hdone
  | writeFailed hpc => exact ⟨rfl, .inr ⟨_, rfl, hnone _⟩⟩
  | filled hpc hreader hc hto => exact ⟨rfl, .inl rfl⟩
  | @returned req reader line rest hpc hcall hreader hline =>
    refine ⟨rfl, .inr ⟨_, rfl, fun line' r' hdone _ => ?_⟩⟩
    obtain ⟨call, pc⟩ := t
    cases hpc
    cases hcall
    cases hdone
    obtain ⟨-, k, c, buf, -, hreader', -, hphase⟩ := h.holder ht (by simp) (by simp)
    rw [hreader] at hreader'
    cases hreader'
    obtain ⟨hbuf, hl⟩ := takeLine_eq_some hline
    simp only at hbuf
    subst hbuf
    obtain ⟨rfl, -, n, response, hanswer, rfl⟩ := hphase.readLine hl
    exact ⟨req, n, response, rfl, hanswer, rfl, by rw [bytesOf_tagged]⟩
  | readFailed hpc => exact ⟨rfl, .inr ⟨_, rfl, hnone _⟩⟩

/-- Whatever a call makes of a line, the line is the whole answer to its request. -/
theorem run_reads {acts : List Act} {call : Call} {line : List Tagged} {r : Returned}
    (h : Run (Step go serde) new acts s) (ht : s.calls[i]? = some ⟨call, .done line r⟩)
    (hline : line ≠ []) : Paired go serde s i call line r := by
  induction h generalizing i call line r with
  | nil => cases ht
  | @snoc acts s s' a run last ih =>
    obtain ⟨call', rfl⟩ | ⟨j, u, hu, hmove⟩ | ⟨k, c, log', c', -, hmove, rfl⟩ := step_cases last
    · rcases getElem?_concat ht with ht | ⟨-, ht⟩
      · exact ih ht hline
      · cases ht
    · -- the log is as it was
      obtain ⟨hlog, hcalls⟩ := lines_of_move (run_inv run) hu hmove
      have hkeep (hp : Paired go serde s i call line r) : Paired go serde s' i call line r := by
        obtain ⟨req, n, response, hcall, hanswer, hrest⟩ := hp
        exact ⟨req, n, response, hcall, (congrArg (·.answered[n]?) hlog).trans hanswer, hrest⟩
      apply hkeep
      obtain hsame | ⟨pc', hset, hreads⟩ := hcalls
      · exact ih (hsame ▸ ht) hline
      · rw [hset, getElem?_calls_set hu] at ht
        split at ht
        · rename_i hij
          subst hij
          cases ht
          exact hreads line r rfl hline
        · exact ih ht hline
    · obtain ⟨req, n, response, hcall, hanswer, hrest⟩ := ih ht hline
      exact ⟨req, n, response, hcall, getElem?_of_initial hmove.log_initial hanswer, hrest⟩

end System

/-! ## Answers and calls -/

/-- In every run of the client and the server, with any calls and any failures: a call that returns
a decoded result or an `ErrorResponse` has read the whole answer the server gave to its own request
and nothing else, and returns the content of that answer when both ends speak the JSON of the model;
no call starts the handler twice; and while the mutex is free the client has no connection, or one
with nothing unread and nothing unanswered. -/
theorem answers_paired (go : GoJson) (serde : Serde) (acts : List Act) (s : System)
    (hrun : Run (System.Step go serde) System.new acts s) :
    (∀ i t line returned, s.calls[i]? = some t → t.pc = .done line returned →
      returned.FromServer →
      ∃ req n response, t.call = .request req ∧
        s.log.answered[n]? = some ⟨tagged i (go.requestLine req), response⟩ ∧
        line = tagged n (serde.responseLine response) ∧
        returned = Client.reply go req (serde.responseLine response) ∧
        ∀ errorText errorText', go = goClient errorText' → serde = serdeJson errorText →
          returned = delivered req response) ∧
    (∀ i, s.executions i ≤ 1) ∧
    (s.mu = none → (s.conn = none ∧ s.reader = none) ∨
      ∃ k c, s.conn = some k ∧ s.reader = some ⟨k, []⟩ ∧ s.conns[k]? = some c ∧ c.Quiet) := by
  have hinv := System.run_inv hrun
  refine ⟨fun i t line returned ht hpc hserver => ?_,
    fun i => Nat.le_trans (Nat.le_add_left _ _) (System.run_tokens hrun i), hinv.idle⟩
  obtain ⟨req, n, response, hcall, hanswer, hline, hreturned⟩ :=
    hinv.paired i t line returned ht hpc hserver
  refine ⟨req, n, response, hcall, hanswer, hline, hreturned, ?_⟩
  rintro errorText errorText' rfl rfl
  exact hreturned.trans (reply_responseLine req response)

/-- The second call has the second answer, although the first one, to the same request, comes
later than its call. -/
theorem answers_paired_kat : ∃ n response,
    Kat.late.log.answered[n]? =
      some ⟨tagged 1 (Kat.goJson.requestLine Kat.decryptNothing), response⟩ ∧
    tagged 1 (Kat.serdeJson.responseLine Kat.noActiveKey) =
      tagged n (Kat.serdeJson.responseLine response) := by
  obtain ⟨hpaired, -⟩ := answers_paired Kat.goJson Kat.serdeJson Kat.lateActs Kat.late Kat.late_run
  obtain ⟨req, n, response, hreq, hanswer, hline, -⟩ := hpaired 1 _ _ _ rfl rfl trivial
  cases hreq
  exact ⟨n, response, hanswer, hline⟩

end Ipc

end SmartSfp
