import SmartSfp.Ipc.Client
import SmartSfp.Lib.Base64
import SmartSfp.Lib.Json.Value
import SmartSfp.Lib.Text

/-!
# Codec — the requests as the Go client writes them and `serde` reads them

`json.Marshal` writes the fields of a struct in order, a `[]byte` as a base64 string and nil as
`null`; none of these strings has a character to escape.  The derived `Deserialize` takes the
members of an object in any order, ignores those it does not know and refuses one given twice.  It
also takes an array in place of an object and an object of one member as the tag, and in a member it
ignores any `\u` escape, a lone surrogate among them; no client writes one of these, and they are
left out.
-/

namespace SmartSfp

namespace Ipc

open Lib

/-! ## What the client writes -/

def member (name : String) (v : Json) : List Char × Json := (name.toList, v)

def natJson (n : Nat) : Json := .num (Json.Number.ofNat n)

def bytesJson : GoBytes → Json
  | none => .null
  | some bytes => .str (Base64.encode bytes)

/-- A field with `omitempty`. -/
def omitEmpty (name : String) (b : GoBytes) : List (List Char × Json) :=
  if b.getD [] = [] then [] else [member name (bytesJson b)]

/-- `encryptParams`. -/
def encryptParams (nonce aad plaintext : GoBytes) : Json :=
  .obj ([member "nonce" (bytesJson nonce)] ++ omitEmpty "aad" aad ++
    [member "plaintext" (bytesJson plaintext)])

/-- `decryptParams`. -/
def decryptParams (frame : GoBytes) : Json := .obj [member "frame" (bytesJson frame)]

/-- `rotateKeyParams`. -/
def rotateKeyParams (keyId : UInt32) (algo : UInt8) (material : GoBytes) : Json :=
  .obj [member "key_id" (natJson keyId.toNat), member "algo" (natJson algo.toNat),
    member "material" (bytesJson material)]

/-- `request` with `params`. -/
def requestWith (method : String) (params : Json) : List (List Char × Json) :=
  [member "method" (.str method.toList), member "params" params]

/-- The members of `request`; without `params` that field is omitted. -/
def requestMembers : ClientRequest → List (List Char × Json)
  | .getStatus => [member "method" (.str "get_status".toList)]
  | .encrypt nonce aad plaintext => requestWith "encrypt" (encryptParams nonce aad plaintext)
  | .decrypt frame => requestWith "decrypt" (decryptParams frame)
  | .rotateKey keyId algo material =>
    requestWith "rotate_key" (rotateKeyParams keyId algo material)

/-- `json.Marshal(req)`. -/
def marshal (req : ClientRequest) : Octets :=
  Text.utf8 (String.ofList (Json.text (.obj (requestMembers req))))

theorem newline_not_mem_marshal (req : ClientRequest) : newline ∉ marshal req :=
  Text.newline_not_mem_utf8 (Json.newline_not_mem_text _)

/-! ## What `serde` reads -/

abbrev Members := List (List Char × Json)

def membersOf : Json → Option Members
  | .obj ms => some ms
  | _ => none

/-- A member that may be missing; twice is an error. -/
def optional (name : String) (ms : Members) : Option (Option Json) :=
  match ms.filter fun m => m.1 = name.toList with
  | [] => some none
  | [m] => some (some m.2)
  | _ => none

/-- A member that has to be there. -/
def required (name : String) (ms : Members) : Option Json := (optional name ms).bind id

/-- A byte field of a text that was in memory. -/
def payload (bytes : Octets) : Option Payload :=
  if h : base64Len bytes.length ≤ isizeMax then some ⟨bytes, h⟩ else none

/-- `wire_b64::deserialize`. -/
def wireB64 : Json → Option Payload
  | .str s => (Base64.decode s).bind payload
  | _ => none

/-- An unsigned number below `size`. -/
def unsigned (size : Nat) : Json → Option Nat
  | .num x => x.toNat?.filter fun n => n < size
  | _ => none

def u32 (j : Json) : Option UInt32 := (unsigned UInt32.size j).map UInt32.ofNat

def u8 (j : Json) : Option UInt8 := (unsigned UInt8.size j).map UInt8.ofNat

def encryptParamsOf (j : Json) : Option EncryptParams := do
  let ms ← membersOf j
  let nonce ← wireB64 (← required "nonce" ms)
  let aad ←
    match ← optional "aad" ms with
    | none => some Payload.empty
    | some aad => wireB64 aad
  let plaintext ← wireB64 (← required "plaintext" ms)
  return { nonce := nonce, aad := aad, plaintext := plaintext }

def decryptParamsOf (j : Json) : Option DecryptParams := do
  let ms ← membersOf j
  let frame ← wireB64 (← required "frame" ms)
  return { frame := frame }

def rotateKeyParamsOf (j : Json) : Option RotateKeyParams := do
  let ms ← membersOf j
  let keyId ← u32 (← required "key_id" ms)
  let algo ← u8 (← required "algo" ms)
  let material ← wireB64 (← required "material" ms)
  return { keyId := keyId, algo := algo, material := material }

def policyBlobOf (j : Json) : Option PolicyBlob := do
  let ms ← membersOf j
  match ← required "bytes" ms with
  | .arr items => return { bytes := ← items.mapM u8 }
  | _ => none

/-- The variant that `method` names. -/
def variantOf (method : List Char) (params : Option Json) : Option Request :=
  if method = "get_status".toList then
    match params with
    | none | some .null => some .getStatus
    | _ => none
  else do
    let params ← params
    if method = "set_policy".toList then return .setPolicy (← policyBlobOf params)
    else if method = "rotate_key".toList then return .rotateKey (← rotateKeyParamsOf params)
    else if method = "encrypt".toList then return .encrypt (← encryptParamsOf params)
    else if method = "decrypt".toList then return .decrypt (← decryptParamsOf params)
    else none

def requestOf (j : Json) : Option Request := do
  let ms ← membersOf j
  match ← required "method" ms with
  | .str method => variantOf method (← optional "params" ms)
  | _ => none

/-- `char::is_whitespace`. -/
def isWhitespace (c : Char) : Bool :=
  let n := c.toNat
  0x09 ≤ n && n ≤ 0x0d || n == 0x20 || n == 0x85 || n == 0xa0 || n == 0x1680 ||
    0x2000 ≤ n && n ≤ 0x200a || n == 0x2028 || n == 0x2029 || n == 0x202f || n == 0x205f ||
    n == 0x3000

/-- `str::trim`. -/
def trim (cs : List Char) : List Char :=
  ((cs.dropWhile isWhitespace).reverse.dropWhile isWhitespace).reverse

/-- `serde_json::from_str::<Request>(text.trim())`. -/
def requestOfText (text : String) : Option Request := (Json.read (trim text.toList)).bind requestOf

/-- The request in a line, for the server. -/
def decodeLine (line : Octets) : Option Request := (Text.fromUtf8 line).bind requestOfText

/-! ## The line of a request -/

/-- The line `roundtrip` writes. -/
def requestLine (req : ClientRequest) : Octets := marshal req ++ [newline]

theorem requestLine_eq (req : ClientRequest) : requestLine req =
    Text.utf8 (String.ofList (Json.text (.obj (requestMembers req))) ++ "\n") := by
  have hnewline : Text.utf8 "\n" = [newline] := by decide
  rw [Text.utf8_append, hnewline, requestLine, marshal]

theorem trim_object (ms : Members) :
    trim (Json.text (.obj ms) ++ ['\n']) = Json.text (.obj ms) := by
  obtain ⟨middle, hmiddle⟩ := Json.text_obj_eq ms
  have hopen : isWhitespace '{' = false := by decide
  have hclose : isWhitespace '}' = false := by decide
  have hnewline : isWhitespace '\n' = true := by decide
  rw [hmiddle, trim, List.cons_append, List.dropWhile_cons_of_neg (by simp [hopen])]
  rw [List.append_assoc, ← List.cons_append, List.reverse_append]
  show (List.dropWhile isWhitespace ('\n' :: '}' :: ('{' :: middle).reverse)).reverse = _
  rw [List.dropWhile_cons_of_pos hnewline, List.dropWhile_cons_of_neg (by simp [hclose])]
  rw [List.reverse_cons, List.reverse_reverse, List.cons_append]

/-- The server reads the object the client wrote. -/
theorem decodeLine_requestLine (req : ClientRequest) :
    decodeLine (requestLine req) = requestOf (.obj (requestMembers req)) := by
  have hnewline : "\n".toList = ['\n'] := by decide
  rw [decodeLine, requestLine_eq, Text.fromUtf8_utf8, Option.bind_some, requestOfText,
    String.toList_append, String.toList_ofList, hnewline, trim_object, Json.read_text,
    Option.bind_some]

/-! ## Its fields -/

theorem wireB64_bytesJson (b : GoBytes) : wireB64 (bytesJson b) = b.bind payload := by
  cases b with
  | none => rfl
  | some bytes =>
    simp only [wireB64, bytesJson, Base64.decode_encode]

theorem payload_eq {bytes : Octets} (h : base64Len bytes.length ≤ isizeMax) :
    payload bytes = some ⟨bytes, h⟩ := dif_pos h

theorem unsigned_natJson {size n : Nat} (h : n < size) : unsigned size (natJson n) = some n := by
  simp [unsigned, natJson, Json.Number.toNat?_ofNat, h]

theorem u32_natJson (n : UInt32) : u32 (natJson n.toNat) = some n := by
  rw [u32, unsigned_natJson n.toNat_lt_size]
  simp

theorem u8_natJson (n : UInt8) : u8 (natJson n.toNat) = some n := by
  rw [u8, unsigned_natJson n.toNat_lt_size]
  simp

theorem requestOf_requestWith (method : String) (params : Json) :
    requestOf (.obj (requestWith method params)) = variantOf method.toList (some params) := by
  rfl

/-- The base64 text of a slice is a part of the line. -/
theorem base64Len_le_line {req : ClientRequest} {method name : String} {params : Members}
    {bytes : Octets} (hreq : requestMembers req = requestWith method (.obj params))
    (hslice : member name (bytesJson (some bytes)) ∈ params) :
    base64Len bytes.length ≤ (requestLine req).length := by
  have hparams : member "params" (.obj params) ∈ requestMembers req := by
    rw [hreq]
    exact List.mem_cons_of_mem _ List.mem_cons_self
  calc base64Len bytes.length
      = (Base64.encode bytes).length := (Base64.length_encode bytes).symm
    _ ≤ (Json.text (bytesJson (some bytes))).length := by
      rw [bytesJson, Json.text]
      exact Json.length_le_quote _
    _ ≤ (Json.text (.obj params)).length := Json.length_le_text_obj hslice
    _ ≤ (Json.text (.obj (requestMembers req))).length := Json.length_le_text_obj hparams
    _ ≤ (marshal req).length := Text.length_le_utf8 _
    _ ≤ (requestLine req).length := by
      rw [requestLine, List.length_append]
      exact Nat.le_add_right _ _

theorem decryptParamsOf_eq (frame : GoBytes) :
    decryptParamsOf (decryptParams frame) = (frame.bind payload).map DecryptParams.mk := by
  have hframe : required "frame" [member "frame" (bytesJson frame)] = some (bytesJson frame) := rfl
  simp only [decryptParamsOf, decryptParams, membersOf, Option.bind_eq_bind, Option.bind_some,
    hframe, wireB64_bytesJson]
  cases frame.bind payload with
  | none => rfl
  | some p => rfl

theorem rotateKeyParamsOf_eq (keyId : UInt32) (algo : UInt8) (material : GoBytes) :
    rotateKeyParamsOf (rotateKeyParams keyId algo material) =
      (material.bind payload).map (RotateKeyParams.mk keyId algo) := by
  have hkeyId : required "key_id" [member "key_id" (natJson keyId.toNat),
      member "algo" (natJson algo.toNat), member "material" (bytesJson material)] =
      some (natJson keyId.toNat) := rfl
  have halgo : required "algo" [member "key_id" (natJson keyId.toNat),
      member "algo" (natJson algo.toNat), member "material" (bytesJson material)] =
      some (natJson algo.toNat) := rfl
  have hmaterial : required "material" [member "key_id" (natJson keyId.toNat),
      member "algo" (natJson algo.toNat), member "material" (bytesJson material)] =
      some (bytesJson material) := rfl
  simp only [rotateKeyParamsOf, rotateKeyParams, membersOf, Option.bind_eq_bind, Option.bind_some,
    hkeyId, halgo, hmaterial, u32_natJson, u8_natJson, wireB64_bytesJson]
  cases material.bind payload with
  | none => rfl
  | some p => rfl

/-- What becomes of a field with `omitempty` and `default`. -/
def defaultPayload (b : GoBytes) : Option Payload :=
  if b.getD [] = [] then some Payload.empty else b.bind payload

theorem encryptParamsOf_eq (nonce aad plaintext : GoBytes) :
    encryptParamsOf (encryptParams nonce aad plaintext) = do
      let n ← nonce.bind payload
      let a ← defaultPayload aad
      let p ← plaintext.bind payload
      return { nonce := n, aad := a, plaintext := p } := by
  simp only [encryptParamsOf, encryptParams, membersOf, Option.bind_eq_bind, Option.bind_some,
    omitEmpty, defaultPayload]
  split
  · have hnonce : required "nonce" ([member "nonce" (bytesJson nonce)] ++ [] ++
        [member "plaintext" (bytesJson plaintext)]) = some (bytesJson nonce) := rfl
    have haad : optional "aad" ([member "nonce" (bytesJson nonce)] ++ [] ++
        [member "plaintext" (bytesJson plaintext)]) = some none := rfl
    have hplaintext : required "plaintext" ([member "nonce" (bytesJson nonce)] ++ [] ++
        [member "plaintext" (bytesJson plaintext)]) = some (bytesJson plaintext) := rfl
    simp only [hnonce, haad, hplaintext, Option.bind_some, wireB64_bytesJson]
  · have hnonce : required "nonce" ([member "nonce" (bytesJson nonce)] ++
        [member "aad" (bytesJson aad)] ++ [member "plaintext" (bytesJson plaintext)]) =
        some (bytesJson nonce) := rfl
    have haad : optional "aad" ([member "nonce" (bytesJson nonce)] ++
        [member "aad" (bytesJson aad)] ++ [member "plaintext" (bytesJson plaintext)]) =
        some (some (bytesJson aad)) := rfl
    have hplaintext : required "plaintext" ([member "nonce" (bytesJson nonce)] ++
        [member "aad" (bytesJson aad)] ++ [member "plaintext" (bytesJson plaintext)]) =
        some (bytesJson plaintext) := rfl
    simp only [hnonce, haad, hplaintext, Option.bind_some, wireB64_bytesJson]

theorem decodeLine_getStatus : decodeLine (requestLine .getStatus) = some .getStatus := by
  rw [decodeLine_requestLine]
  rfl

theorem decodeLine_encrypt (nonce aad plaintext : GoBytes) :
    decodeLine (requestLine (.encrypt nonce aad plaintext)) = do
      let n ← nonce.bind payload
      let a ← defaultPayload aad
      let p ← plaintext.bind payload
      return .encrypt { nonce := n, aad := a, plaintext := p } := by
  have hvariant : variantOf "encrypt".toList (some (encryptParams nonce aad plaintext)) =
      (encryptParamsOf (encryptParams nonce aad plaintext)).bind fun p => some (.encrypt p) := rfl
  rw [decodeLine_requestLine, requestMembers, requestOf_requestWith, hvariant, encryptParamsOf_eq]
  simp only [Option.bind_eq_bind, Option.bind_assoc]
  rfl

theorem decodeLine_decrypt (frame : GoBytes) :
    decodeLine (requestLine (.decrypt frame)) = do
      let f ← frame.bind payload
      return .decrypt { frame := f } := by
  have hvariant : variantOf "decrypt".toList (some (decryptParams frame)) =
      (decryptParamsOf (decryptParams frame)).bind fun p => some (.decrypt p) := rfl
  rw [decodeLine_requestLine, requestMembers, requestOf_requestWith, hvariant, decryptParamsOf_eq]
  cases frame.bind payload with
  | none => rfl
  | some p => rfl

theorem decodeLine_rotateKey (keyId : UInt32) (algo : UInt8) (material : GoBytes) :
    decodeLine (requestLine (.rotateKey keyId algo material)) = do
      let m ← material.bind payload
      return .rotateKey { keyId := keyId, algo := algo, material := m } := by
  have hvariant : variantOf "rotate_key".toList (some (rotateKeyParams keyId algo material)) =
      (rotateKeyParamsOf (rotateKeyParams keyId algo material)).bind
        fun p => some (.rotateKey p) := rfl
  rw [decodeLine_requestLine, requestMembers, requestOf_requestWith, hvariant,
    rotateKeyParamsOf_eq]
  cases material.bind payload with
  | none => rfl
  | some p => rfl

/-! ## What a request means -/

/-- The request of the server that carries the bytes and numbers of a call; nil is no bytes. -/
def Means : ClientRequest → Request → Prop
  | .getStatus, .getStatus => True
  | .encrypt nonce aad plaintext, .encrypt p =>
    p.nonce.data = nonce.getD [] ∧ p.aad.data = aad.getD [] ∧ p.plaintext.data = plaintext.getD []
  | .decrypt frame, .decrypt p => p.frame.data = frame.getD []
  | .rotateKey keyId algo material, .rotateKey p =>
    p.keyId = keyId ∧ p.algo = algo ∧ p.material.data = material.getD []
  | _, _ => False

/-- No slice but `aad` is nil. -/
def SlicesGiven : ClientRequest → Prop
  | .getStatus => True
  | .encrypt nonce _ plaintext => nonce.isSome = true ∧ plaintext.isSome = true
  | .decrypt frame => frame.isSome = true
  | .rotateKey _ _ material => material.isSome = true

/-- A slice of the request as the server has it. -/
theorem bind_payload {req : ClientRequest} {method name : String} {params : Members}
    (hfits : (requestLine req).length ≤ isizeMax)
    (hreq : requestMembers req = requestWith method (.obj params)) {b : GoBytes}
    (hslice : member name (bytesJson b) ∈ params) (hb : b.isSome = true) :
    ∃ p, b.bind payload = some p ∧ p.data = b.getD [] := by
  obtain ⟨bytes, rfl⟩ := Option.isSome_iff_exists.mp hb
  have hlen := Nat.le_trans (base64Len_le_line hreq hslice) hfits
  exact ⟨⟨bytes, hlen⟩, payload_eq hlen, rfl⟩

/-- `aad` comes through whether it is nil, empty or neither. -/
theorem defaultPayload_eq {nonce aad plaintext : GoBytes}
    (hfits : (requestLine (.encrypt nonce aad plaintext)).length ≤ isizeMax) :
    ∃ p, defaultPayload aad = some p ∧ p.data = aad.getD [] := by
  unfold defaultPayload
  by_cases hempty : aad.getD [] = []
  · rw [if_pos hempty, hempty]
    exact ⟨Payload.empty, rfl, rfl⟩
  · rw [if_neg hempty]
    have hslice : member "aad" (bytesJson aad) ∈ [member "nonce" (bytesJson nonce)] ++
        omitEmpty "aad" aad ++ [member "plaintext" (bytesJson plaintext)] := by
      simp [omitEmpty, hempty]
    apply bind_payload hfits rfl hslice
    cases aad with
    | none => exact absurd rfl hempty
    | some bytes => rfl

/-- The line carries the call to the server exactly if no slice but `aad` is nil. -/
theorem request_carried_iff (req : ClientRequest) (hfits : (requestLine req).length ≤ isizeMax) :
    (∃ request, decodeLine (requestLine req) = some request ∧ Means req request) ↔
      SlicesGiven req := by
  cases req with
  | getStatus => exact ⟨fun _ => trivial, fun _ => ⟨.getStatus, decodeLine_getStatus, trivial⟩⟩
  | encrypt nonce aad plaintext =>
    -- `aad` always arrives, so the nonce and the plaintext decide
    rw [decodeLine_encrypt]
    obtain ⟨a, ha, hadata⟩ := defaultPayload_eq hfits
    rw [ha]
    constructor
    · intro ⟨request, hdecode, _⟩
      cases nonce with
      | none => cases hdecode
      | some n =>
        cases plaintext with
        | none =>
          cases hn : (some n).bind payload with
          | none => simp [hn] at hdecode
          | some p => simp [hn] at hdecode
        | some bytes => exact ⟨rfl, rfl⟩
    · intro hgiven
      obtain ⟨n, hn, hndata⟩ := bind_payload hfits rfl List.mem_cons_self hgiven.1
      obtain ⟨p, hp, hpdata⟩ := bind_payload hfits rfl
        (List.mem_append_right _ List.mem_cons_self) hgiven.2
      rw [hn, hp]
      exact ⟨_, rfl, hndata, hadata, hpdata⟩
  | decrypt frame =>
    rw [decodeLine_decrypt]
    constructor
    · intro ⟨request, hdecode, _⟩
      cases frame with
      | none => cases hdecode
      | some bytes => rfl
    · intro hgiven
      obtain ⟨p, hp, hdata⟩ := bind_payload hfits rfl List.mem_cons_self hgiven
      rw [hp]
      exact ⟨_, rfl, hdata⟩
  | rotateKey keyId algo material =>
    rw [decodeLine_rotateKey]
    constructor
    · intro ⟨request, hdecode, _⟩
      cases material with
      | none => cases hdecode
      | some bytes => rfl
    · intro hgiven
      obtain ⟨p, hp, hdata⟩ := bind_payload hfits rfl
        (List.mem_cons_of_mem _ (List.mem_cons_of_mem _ List.mem_cons_self)) hgiven
      rw [hp]
      exact ⟨_, rfl, rfl, rfl, hdata⟩

/-- A nonce, no associated data and an empty, not nil, plaintext. -/
theorem request_carried_empty :
    (∃ request, decodeLine (requestLine (.encrypt (some [1, 2, 3]) none (some []))) =
      some request ∧ Means (.encrypt (some [1, 2, 3]) none (some [])) request) :=
  (request_carried_iff (.encrypt (some [1, 2, 3]) none (some [])) (by decide +kernel)).mpr
    ⟨rfl, rfl⟩

/-- `Decrypt(ctx, nil)` writes `null`, which the server refuses. -/
theorem nil_frame_refused :
    requestLine (.decrypt none) =
      Text.utf8 "\x7b\"method\":\"decrypt\",\"params\":\x7b\"frame\":null\x7d\x7d\n" ∧
    ¬∃ request, decodeLine (requestLine (.decrypt none)) = some request ∧
      Means (.decrypt none) request := by
  refine ⟨by decide +kernel, ?_⟩
  intro ⟨request, hdecode, _⟩
  rw [decodeLine_decrypt] at hdecode
  cases hdecode

end Ipc

end SmartSfp
