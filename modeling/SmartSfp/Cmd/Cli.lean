import SmartSfp.Lib.Literal
import SmartSfp.Httpapi.Status
import SmartSfp.Node.Realise

/-!
# Cli — the diagnostics command of an operator

`acm-cli` makes at most one call.  What `flag.Parse` does, `-h` included, is left out, and so is
closing the client at the end.
-/

namespace SmartSfp

namespace Cmd

open Lib Ipc Httpapi Node Cryptod

/-- What a command leaves behind: its exit code, and what each of its prints has written. -/
structure Exit where
  code : Nat
  stdout : List String
  stderr : List Text
  deriving DecidableEq

/-- The runtime ends the program. -/
def panicked (out : List String) (reason : String) : Exit :=
  ⟨2, out, [Text.utf8 ("panic: runtime error: " ++ reason)]⟩

def nilReport : String := "invalid memory address or nil pointer dereference"

namespace Cli

/-- The system a command was built for. -/
structure Target where
  goos : String
  goarch : String

def version : String := "0.1.0-dev"

def usage (target : Target) : Text := Text.utf8 s!"acm-cli {version} ({target.goos}/{target.goarch})

Usage:
  acm-cli [--socket=PATH] status
  acm-cli [--socket=PATH] rotate-key KEY_ID ALGO HEX_MATERIAL

Options:
  --socket=PATH   UDS to cryptod (default: /run/acm/cryptod.sock)

ALGO is the AlgoId byte (decimal or 0x-prefixed hex):
  1   AES-128-GCM   key=16 bytes
  2   AES-256-GCM   key=32 bytes
  16  O'z DSt 1105  key=32 bytes (not yet supported)

Example:
  acm-cli rotate-key 7 2 $(openssl rand -hex 32)
"

/-- `Error()` of a `*NumError` of `ParseUint`; `quoted` is `strconv.Quote`. -/
def numErrorText (quoted : Text → String) (s : Text) : Text.NumError → String
  | .syntaxError => s!"strconv.ParseUint: parsing {quoted s}: invalid syntax"
  | .rangeError => s!"strconv.ParseUint: parsing {quoted s}: value out of range"

def printStatus (s : StatusReport) : List String := [
  s!"version:          {s.version}\n",
  s!"running:          {s.running}\n",
  s!"uptime_s:         {s.uptimeS}\n",
  s!"active_provider:  {s.activeProvider}\n",
  match s.activeKeyId with
  | some id => s!"active_key_id:    {id}\n"
  | none => "active_key_id:    (none)\n",
  s!"packets_sealed:   {s.packetsSealed}\n",
  s!"packets_opened:   {s.packetsOpened}\n",
  s!"crypto_errors:    {s.cryptoErrors}\n"]

def exit (code : Nat) (text : String) : Exit := ⟨code, [], [Text.utf8 text]⟩

variable (target : Target) (quoted : Text → String) (errorText : ClientError → String)

/-- `status` from the return of `GetStatus` on. -/
def afterGetStatus (r : Returned) : Exit :=
  match returnedError errorText r, returnedReport r with
  | some e, _ => exit 3 s!"{e}\n"
  | none, some st => ⟨0, printStatus st, []⟩
  | none, none => panicked [] nilReport

/-- `status` with its arguments. -/
def status : List Text → Program Exit
  | [] => .ask .getStatus fun r => .stop (afterGetStatus errorText r)
  | _ => .stop (exit 2 "status takes no args\n")

/-- `rotate-key` from the return of `RotateKey` on. -/
def afterRotateKey (r : Returned) : Exit :=
  match returnedError errorText r with
  | some e => exit 3 s!"{e}\n"
  | none => ⟨0, ["ok\n"], []⟩

/-- `rotate-key` with its arguments. -/
def rotateKey : List Text → Program Exit
  | [keyIdText, algoText, materialText] =>
    match Text.parseUint0 32 keyIdText with
    | .error e => .stop (exit 2 s!"bad KEY_ID: {numErrorText quoted keyIdText e}\n")
    | .ok keyId =>
      match Text.parseUint0 8 algoText with
      | .error e => .stop (exit 2 s!"bad ALGO: {numErrorText quoted algoText e}\n")
      | .ok algo =>
        match Hex.decodeString materialText with
        | .error e => .stop (exit 2 s!"bad HEX_MATERIAL: {e.text}\n")
        | .ok material =>
          .ask (.rotateKey (UInt32.ofNat keyId) (UInt8.ofNat algo) (some material)) fun r =>
            .stop (afterRotateKey errorText r)
  | _ => .stop (exit 2 "rotate-key takes KEY_ID ALGO HEX_MATERIAL\n")

/-- `main` from the return of `flag.Parse` on; the list is `flag.Args()`. -/
def main : List Text → Program Exit
  | [] => .stop ⟨1, [], [usage target]⟩
  | command :: args =>
    if command = Text.utf8 "status" then status errorText args
    else if command = Text.utf8 "rotate-key" then rotateKey quoted errorText args
    else .stop ⟨2, [],
      [Text.utf8 "unknown subcommand: " ++ command ++ Text.utf8 "\n\n", usage target]⟩

/-! ## Command lines -/

/-- Arguments after the flags that ask for something, and what they ask for. -/
inductive Command : List Text → ClientRequest → Prop where
  | status : Command [Text.utf8 "status"] .getStatus
  | rotateKey {keyIdText algoText materialText : Text} {keyId algo : Nat} {material : Octets}
      (hkeyId : Text.Literal keyIdText keyId) (hid : keyId < 2 ^ 32)
      (halgo : Text.Literal algoText algo) (hbyte : algo < 2 ^ 8)
      (hmaterial : Hex.decodeString materialText = .ok material) :
      Command [Text.utf8 "rotate-key", keyIdText, algoText, materialText]
        (.rotateKey (UInt32.ofNat keyId) (UInt8.ofNat algo) (some material))

variable {args : List Text} {req : ClientRequest}

/-- What is left behind for what the call returned. -/
def afterCall : ClientRequest → Returned → Exit
  | .getStatus, r => afterGetStatus errorText r
  | _, r => afterRotateKey errorText r

/-- Arguments that ask for something make that call and no other. -/
theorem main_of_command (h : Command args req) :
    main target quoted errorText args = .ask req fun r => .stop (afterCall errorText req r) := by
  cases h with
  | status => rfl
  | rotateKey hkeyId hid halgo hbyte hmaterial =>
    have hne : Text.utf8 "rotate-key" ≠ Text.utf8 "status" := by decide
    rw [main, if_neg hne, if_pos rfl, rotateKey, Text.parseUint0_eq_ok_iff.mpr ⟨hkeyId, hid⟩]
    simp only [Text.parseUint0_eq_ok_iff.mpr ⟨halgo, hbyte⟩, hmaterial, afterCall]

/-- Any other arguments ask for nothing. -/
theorem main_of_not_command (h : ∀ req, ¬ Command args req) :
    ∃ e, main target quoted errorText args = .stop e ∧ (e.code = 1 ∨ e.code = 2) := by
  unfold main
  split
  · exact ⟨_, rfl, .inl rfl⟩
  · rename_i command args
    split
    · rename_i hstatus
      subst hstatus
      unfold status
      split
      · exact absurd .status (h _)
      · exact ⟨_, rfl, .inr rfl⟩
    · split
      · rename_i hrotate
        subst hrotate
        unfold rotateKey
        split
        · split
          · exact ⟨_, rfl, .inr rfl⟩
          · rename_i hkeyId
            split
            · exact ⟨_, rfl, .inr rfl⟩
            · rename_i halgo
              split
              · exact ⟨_, rfl, .inr rfl⟩
              · rename_i hmaterial
                obtain ⟨hkeyId, hid⟩ := Text.parseUint0_eq_ok_iff.mp hkeyId
                obtain ⟨halgo, hbyte⟩ := Text.parseUint0_eq_ok_iff.mp halgo
                exact absurd (.rotateKey hkeyId hid halgo hbyte hmaterial) (h _)
        · exact ⟨_, rfl, .inr rfl⟩
      · exact ⟨_, rfl, .inr rfl⟩

/-! ## What the exit code says -/

variable {target quoted errorText}

/-- What is printed when the daemon has done what was asked. -/
def printed : Response → List String
  | .status report => printStatus report
  | _ => ["ok\n"]

/-- A failed call, and an answer that is an error, end with code 3. -/
theorem afterCall_error {r : Returned} {e : String} (h : returnedError errorText r = some e)
    (req : ClientRequest) : (afterCall errorText req r).code = 3 := by
  cases req <;> simp [afterCall, afterGetStatus, afterRotateKey, h, exit]

/-- Any other answer ends with code 0. -/
theorem afterCall_delivered {response : Response} (h : Command args req)
    (hserver : (delivered req response).FromServer)
    (hresponse : ∀ code message, response ≠ .error code message) :
    afterCall errorText req (delivered req response) = ⟨0, printed response, []⟩ := by
  cases h with
  | status =>
    cases response with
    | status report => rfl
    | error code message => exact absurd rfl (hresponse code message)
    | _ => exact hserver.elim
  | rotateKey =>
    cases response with
    | ok => rfl
    | error code message => exact absurd rfl (hresponse code message)
    | _ => exact hserver.elim

variable {pf : Platform} {s₀ : CryptodState} {acts : List ProcessAct} {p : Process Exit} {e : Exit}

/-- A command that has stopped has made the one call, or none. -/
theorem calls_of_stopped (hrun : Run (Process.Step pf)
      (Process.new s₀ (main target quoted errorText args)) acts p)
    (hstopped : p.script = .stop e) :
    (∀ req, Command args req → ∃ line r, p.world.ipc.calls = [⟨.request req, .done line r⟩] ∧
      e = afterCall errorText req r) ∧
    ((∀ req, ¬ Command args req) → p.world.ipc.calls = [] ∧ (e.code = 1 ∨ e.code = 2)) := by
  obtain ⟨log, hlog, hmade⟩ := exists_made hrun
  rw [hstopped] at hlog
  have hlength := hmade.length_of_stopped hstopped
  constructor
  · intro req hcommand
    rw [main_of_command _ _ _ hcommand] at hlog
    obtain ⟨r, t, later, rfl, -, hlater⟩ := Script.ask_of_run hlog
    obtain ⟨rfl, hend⟩ := Script.stop_of_run hlater
    cases hend
    obtain ⟨line, ht⟩ := hmade.answered 0 _ rfl
    obtain ⟨t, ht'⟩ := List.length_eq_one_iff.mp hlength
    rw [ht'] at ht
    cases ht
    exact ⟨line, r, ht', rfl⟩
  · intro hnone
    obtain ⟨e', hmain, hcode⟩ := main_of_not_command target quoted errorText hnone
    rw [hmain] at hlog
    obtain ⟨rfl, hend⟩ := Script.stop_of_run hlog
    cases hend
    exact ⟨List.length_eq_zero_iff.mp hlength, hcode⟩

/-- A command that does not end with code 3 was answered by a handler, with no error. -/
theorem answered_of_returned {w : World} {acts : List Node.Act} {line : List Tagged} {r : Returned}
    (hrun : Run (World.Step pf.decoding) (World.new s₀) acts w)
    (ht : w.ipc.calls[0]? = some ⟨.request req, .done line r⟩) :
    (afterCall errorText req r).code = 3 ∨ ∃ hd request response,
      Delivered w 0 req r hd request response ∧ ∀ code message, response ≠ .error code message := by
  obtain ⟨xs, hipc⟩ := run_ipc hrun
  obtain ⟨-, failure, rfl⟩ | ⟨hne, -⟩ := System.run_ends hipc ht
  · exact .inl (afterCall_error rfl req)
  obtain hrefused | ⟨hd, request, response, hdelivered⟩ := returned_of_line hrun ht hne
  · obtain ⟨message, rfl⟩ := hrefused.returned
    exact .inl (afterCall_error rfl req)
  · by_cases hresponse : ∀ code message, response ≠ .error code message
    · exact .inr ⟨hd, request, response, hdelivered, hresponse⟩
    · simp only [ne_eq, not_forall, not_not] at hresponse
      obtain ⟨code, message, rfl⟩ := hresponse
      have hreturned : r = .errorResponse ⟨code, message⟩ := by
        rw [hdelivered.returned]
        cases req <;> rfl
      rw [hreturned]
      exact .inl (afterCall_error rfl req)

/-- What the exit code of the command says.  In every run, whatever fails and whoever else makes
requests: arguments that ask for something make exactly that call, and the command ends with code 0
or 3; it ends with 0 exactly when the one handler that ran for the call had its arguments and
answered no error, and then it has printed that answer and nothing else.  Arguments that ask for
nothing make no call, and the command ends with 1 or 2. -/
theorem main_exit (pf : Platform) (target : Target) (quoted : Text → String)
    (errorText : ClientError → String) (s₀ : CryptodState) (args : List Text)
    (acts : List ProcessAct) (p : Process Exit) (e : Exit)
    (hrun : Run (Process.Step pf.decoding)
      (Process.new s₀ (main target quoted errorText args)) acts p)
    (hstopped : p.script = .stop e) :
    (∀ req, Command args req → ∃ line r, p.world.ipc.calls = [⟨.request req, .done line r⟩] ∧
      (e.code = 0 ∨ e.code = 3) ∧
      (e.code = 0 ↔ ∃ hd request response, Delivered p.world 0 req r hd request response ∧
        ∀ code message, response ≠ .error code message) ∧
      ∀ hd request response, Delivered p.world 0 req r hd request response →
        (∀ code message, response ≠ .error code message) → e = ⟨0, printed response, []⟩) ∧
    ((∀ req, ¬ Command args req) → p.world.ipc.calls = [] ∧ (e.code = 1 ∨ e.code = 2)) := by
  obtain ⟨hcommands, hothers⟩ := calls_of_stopped hrun hstopped
  refine ⟨fun req hcommand => ?_, hothers⟩
  obtain ⟨line, r, hcalls, rfl⟩ := hcommands req hcommand
  refine ⟨line, r, hcalls, ?_⟩
  obtain ⟨bs, hworld⟩ := run_world hrun
  have ht : p.world.ipc.calls[0]? = some ⟨.request req, .done line r⟩ := by
    rw [hcalls]
    rfl
  have hexit (hd : Handling) (request : Request) (response : Response)
      (hdelivered : Delivered p.world 0 req r hd request response)
      (hresponse : ∀ code message, response ≠ .error code message) :
      afterCall errorText req r = ⟨0, printed response, []⟩ := by
    have hserver := hdelivered.fromServer
    rw [hdelivered.returned] at hserver ⊢
    exact afterCall_delivered hcommand hserver hresponse
  obtain hcode | ⟨hd, request, response, hdelivered, hresponse⟩ :
      (afterCall errorText req r).code = 3 ∨ _ := answered_of_returned hworld ht
  · refine ⟨.inr hcode, ⟨fun hzero => ?_, ?_⟩, hexit⟩
    · rw [hcode] at hzero
      cases hzero
    · rintro ⟨hd, request, response, hdelivered, hresponse⟩
      rw [hexit hd request response hdelivered hresponse]
  · have hzero : (afterCall errorText req r).code = 0 := by
      rw [hexit hd request response hdelivered hresponse]
    exact ⟨.inl hzero, ⟨fun _ => ⟨hd, request, response, hdelivered, hresponse⟩, fun _ => hzero⟩,
      hexit⟩

namespace Kat

/-- `acm-cli rotate-key 7 0x2` and the material. -/
def rotateArgs : List Text :=
  [Text.utf8 "rotate-key", Text.utf8 "7", Text.utf8 "0x2",
    (List.replicate 32 (Text.utf8 "42")).flatten]

def rotateCall : ClientRequest := .rotateKey 7 2 (some Gcm.Kat.material256)

theorem rotateArgs_command : Command rotateArgs rotateCall := by
  have hkeyId : Text.Literal (Text.utf8 "7") 7 :=
    .decimal (by decide) (.last (show Text.digitIn 10 0x37 = some 7 by decide))
  have halgo : Text.Literal (Text.utf8 "0x2") 2 :=
    .based (show Text.radix 0x78 = some 16 by decide)
      (.last (show Text.digitIn 16 0x32 = some 2 by decide))
  exact .rotateKey hkeyId (by decide) halgo (by decide) (by decide +kernel)

theorem decodeLine_rotateCall :
    decodeLine (requestLine rotateCall) = some (.rotateKey Cryptod.Kat.rotate256) := by
  show decodeLine (requestLine (.rotateKey _ _ _)) = _
  rw [decodeLine_rotateKey]
  rfl

theorem rotateCall_readable : Readable rotateCall := by
  rw [Readable, decodeLine_rotateCall]
  exact Option.some_ne_none _

theorem serves_rotateCall :
    Serves Node.Kat.platform.crate Cryptod.Kat.fresh rotateCall .ok Cryptod.Kat.rotated :=
  .answered (x := ⟨.rotateKey Cryptod.Kat.rotate256, 0, .ok⟩) rfl decodeLine_rotateCall

def armLinux : Target := ⟨"linux", "arm64"⟩

end Kat

/-- The key is rotated, and the command says so. -/
theorem main_exit_rotated : ∃ acts p,
    Run (Process.Step Node.Kat.platform.decoding) (Process.new Cryptod.Kat.fresh
      (main Kat.armLinux (fun _ => "") (fun _ => "") Kat.rotateArgs)) acts p ∧
    p.script = .stop ⟨0, ["ok\n"], []⟩ ∧ ∃ line r hd request response,
      p.world.ipc.calls = [⟨.request Kat.rotateCall, .done line r⟩] ∧
      Delivered p.world 0 Kat.rotateCall r hd request response ∧ printed response = ["ok\n"] := by
  have hasks : Run (Script.Asks (Serves Node.Kat.platform.crate))
      (main Kat.armLinux (fun _ => "") (fun _ => "") Kat.rotateArgs, Cryptod.Kat.fresh)
      [(Kat.rotateCall, .ok)] (.stop ⟨0, ["ok\n"], []⟩, Cryptod.Kat.rotated) := by
    rw [main_of_command _ _ _ Kat.rotateArgs_command]
    exact Run.single (Script.asks_ask Kat.serves_rotateCall)
  obtain ⟨acts, p, hrun, -, hstopped, -, -⟩ := exists_process Node.Kat.platform hasks
    fun x hx => List.mem_singleton.mp hx ▸ Kat.rotateCall_readable
  obtain ⟨line, r, hcalls, -, hzero, hprinted⟩ := (main_exit Node.Kat.platform Kat.armLinux
    (fun _ => "") (fun _ => "") Cryptod.Kat.fresh Kat.rotateArgs acts p _ hrun hstopped).1
    Kat.rotateCall Kat.rotateArgs_command
  obtain ⟨hd, request, response, hdelivered, hresponse⟩ := hzero.mp rfl
  have hexit := hprinted hd request response hdelivered hresponse
  simp only [Exit.mk.injEq, true_and, and_true] at hexit
  exact ⟨acts, p, hrun, hstopped, line, r, hd, request, response, hcalls, hdelivered, hexit.symm⟩

end Cli

end Cmd

end SmartSfp
