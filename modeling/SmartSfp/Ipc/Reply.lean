import SmartSfp.Ipc.Codec

/-!
# Reply — the responses as `serde` writes them and the Go client reads them

`serde` writes the tag and the content of a variant in order, and no content for `Ok`.
`json.Unmarshal` finds the field of a member whatever the case of its name, the last member of a
field counts, and a `null` leaves the field alone.  Of a `json.RawMessage` only the value is kept,
as its compact text, because all that is done with one is to unmarshal it.
-/

namespace SmartSfp

namespace Ipc

open Lib

/-! ## What the server writes -/

/-- The tag of the variant. -/
def Response.tag : Response → String
  | .status _ => "status"
  | .ok => "ok"
  | .ciphertext _ => "ciphertext"
  | .plaintext _ => "plaintext"
  | .error _ _ => "error"

def statusJson (r : StatusReport) : Json :=
  .obj [member "version" (.str r.version.toList), member "running" (.bool r.running),
    member "uptime_s" (natJson r.uptimeS.toNat),
    member "active_provider" (.str r.activeProvider.toList),
    member "active_key_id" (match r.activeKeyId with
      | none => .null
      | some id => natJson id.toNat),
    member "packets_sealed" (natJson r.packetsSealed.toNat),
    member "packets_opened" (natJson r.packetsOpened.toNat),
    member "crypto_errors" (natJson r.cryptoErrors.toNat)]

/-- `Bytes`. -/
def bytesObject (bytes : Octets) : Json := .obj [member "bytes" (bytesJson (some bytes))]

def errorObject (code : UInt32) (message : String) : Json :=
  .obj [member "code" (natJson code.toNat), member "message" (.str message.toList)]

/-- The content of the variant. -/
def Response.content : Response → Option Json
  | .status report => some (statusJson report)
  | .ok => none
  | .ciphertext bytes => some (bytesObject bytes)
  | .plaintext bytes => some (bytesObject bytes)
  | .error code message => some (errorObject code message)

def responseMembers (response : Response) : Members :=
  match response.content with
  | none => [member "result" (.str response.tag.toList)]
  | some content => [member "result" (.str response.tag.toList), member "data" content]

def jsonOctets (v : Json) : Octets := Text.utf8 (String.ofList (Json.text v))

/-- `serde_json`, but for the texts of its errors. -/
def serdeJson (errorText : String → String) : Serde where
  fromUtf8 := Text.fromUtf8
  fromStr text :=
    match requestOfText text with
    | some request => .ok request
    | none => .error (errorText text)
  toText response := jsonOctets (.obj (responseMembers response))
  newline_not_mem _ := Text.newline_not_mem_utf8 (Json.newline_not_mem_text _)

/-! ## What the client reads -/

/-- `foldRune`, as far as it gives ASCII characters. -/
def foldChar (c : Char) : Char :=
  if c = 'ſ' then 'S' else if c = '\u212a' then 'K' else c.toUpper

/-- The values of the members for a field, in order. -/
def fieldValues (name : String) (ms : Members) : List Json :=
  (ms.filter fun m => m.1.map foldChar = name.toList.map foldChar).map Prod.snd

/-- A field of type `string`; another kind of value is an error. -/
def stringField (name : String) (ms : Members) : Option String :=
  (fieldValues name ms).foldlM (fun (old : String) v => match v with
    | .str s => some (String.ofList s)
    | .null => some old
    | _ => none) ""

/-- A field of type `json.RawMessage`. -/
def rawField (name : String) (ms : Members) : Octets :=
  (fieldValues name ms).foldl (fun _ v => jsonOctets v) []

/-- `json.Unmarshal` into a `responseEnvelope`. -/
def envelopeOf : Json → Option Envelope
  | .null => some ⟨"", []⟩
  | .obj ms => (stringField "result" ms).map fun result => ⟨result, rawField "data" ms⟩
  | _ => none

/-- The value of a text that is UTF-8, as all the server writes is. -/
def valueOf (text : Octets) : Option Json := (Text.fromUtf8 text).bind fun s => Json.read s.toList

/-- `json.Unmarshal` into an `ErrorResponse` when its error is ignored: a member of another kind
leaves its field alone. -/
def errorResponseOf : Json → ErrorResponse
  | .obj ms =>
    { code := (fieldValues "code" ms).foldl (fun old v => (u32 v).getD old) 0
      message := (fieldValues "message" ms).foldl (fun old v => match v with
        | .str s => String.ofList s
        | _ => old) "" }
  | _ => ⟨0, ""⟩

/-- `encoding/json`, but for the texts of its errors and the other results. -/
def goJson (errorText : Octets → String) (statusReport : Octets → Except String StatusReport)
    (bytesPayload : Octets → Except String Octets) : GoJson where
  marshal := marshal
  newline_not_mem := newline_not_mem_marshal
  envelope line :=
    match (valueOf line).bind envelopeOf with
    | some env => .ok env
    | none => .error (errorText line)
  statusReport := statusReport
  bytesPayload := bytesPayload
  errorResponse data := ((valueOf data).map errorResponseOf).getD ⟨0, ""⟩

/-! ## A response as the client sees it -/

variable {errorText : String → String} {errorText' : Octets → String}
  {statusReport : Octets → Except String StatusReport}
  {bytesPayload : Octets → Except String Octets}

theorem valueOf_jsonOctets (v : Json) : valueOf (jsonOctets v) = some v := by
  rw [valueOf, jsonOctets, Text.fromUtf8_utf8, Option.bind_some, String.toList_ofList,
    Json.read_text]

/-- The end of the line is white space to the reader. -/
theorem valueOf_line (v : Json) : valueOf (jsonOctets v ++ [newline]) = some v := by
  have hnewline : Text.utf8 "\n" = [newline] := by decide
  have hlist : "\n".toList = ['\n'] := by decide
  rw [valueOf, jsonOctets, ← hnewline, ← Text.utf8_append, Text.fromUtf8_utf8, Option.bind_some,
    String.toList_append, String.toList_ofList, hlist, Json.read_text_newline]

/-- What the envelope of a response holds. -/
def responseEnvelope (response : Response) : Envelope :=
  ⟨response.tag, (response.content.map jsonOctets).getD []⟩

theorem envelopeOf_response (response : Response) :
    envelopeOf (.obj (responseMembers response)) = some (responseEnvelope response) := by
  have hresult (v : Json) : fieldValues "result" [member "result" v] = [v] := rfl
  have hdata (v : Json) : fieldValues "data" [member "result" v] = [] := rfl
  have hresult' (v w : Json) :
      fieldValues "result" [member "result" v, member "data" w] = [v] := rfl
  have hdata' (v w : Json) :
      fieldValues "data" [member "result" v, member "data" w] = [w] := rfl
  unfold responseMembers responseEnvelope
  cases response.content with
  | none =>
    simp only [envelopeOf, stringField, rawField, hresult, hdata]
    simp
  | some content =>
    simp only [envelopeOf, stringField, rawField, hresult', hdata']
    simp

theorem envelope_responseLine (response : Response) :
    (goJson errorText' statusReport bytesPayload).envelope
      ((serdeJson errorText).responseLine response) = .ok (responseEnvelope response) := by
  have hvalue : valueOf ((serdeJson errorText).responseLine response) =
      some (.obj (responseMembers response)) := valueOf_line _
  simp only [goJson, hvalue, Option.bind_some, envelopeOf_response]

theorem errorResponse_content (code : UInt32) (message : String) :
    (goJson errorText' statusReport bytesPayload).errorResponse
      (jsonOctets (errorObject code message)) = ⟨code, message⟩ := by
  have hcode (v w : Json) : fieldValues "code" [member "code" v, member "message" w] = [v] := rfl
  have hmessage (v w : Json) :
      fieldValues "message" [member "code" v, member "message" w] = [w] := rfl
  show ((valueOf (jsonOctets (errorObject code message))).map errorResponseOf).getD ⟨0, ""⟩ = _
  rw [valueOf_jsonOctets]
  simp only [Option.map_some, Option.getD_some, errorObject, errorResponseOf, hcode, hmessage]
  simp [u32_natJson]

/-- What `RotateKey` returns for a response of the server. -/
theorem rotateKey_responseLine (keyId : UInt32) (algo : UInt8) (material : GoBytes)
    (response : Response) :
    Client.reply (goJson errorText' statusReport bytesPayload) (.rotateKey keyId algo material)
      ((serdeJson errorText).responseLine response) =
      match response with
      | .ok => .ok
      | .error code message => .errorResponse ⟨code, message⟩
      | other => .failed (.unexpected other.tag) := by
  simp only [Client.reply, envelope_responseLine, Client.rotateKey, Client.switchResult]
  cases response with
  | status report => rfl
  | ok => rfl
  | ciphertext bytes => rfl
  | plaintext bytes => rfl
  | error code message =>
    exact congrArg Returned.errorResponse (errorResponse_content code message)

end Ipc

end SmartSfp
