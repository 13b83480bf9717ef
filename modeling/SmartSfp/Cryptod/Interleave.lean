import SmartSfp.Cryptod.Handler
import SmartSfp.Lib.Pool

/-!
# Interleave — any number of handlers at once

Every connection is served by a task of its own, and the handlers of different connections meet in
the three mutexes and the counters.  A task stops at each `lock().await`; what it does under the
lock is one step, because nothing it shares with other tasks there is visible without the lock.
`GetStatus` is the exception: it keeps the guard of `active_key` while it loads the counters, which
other tasks change meanwhile, so its loads are steps of their own and the guard is part of the
state.
-/

namespace SmartSfp

namespace Cryptod

open Lib Exec Ipc

/-- Where a handler is. -/
inductive Pc where
  | received
  /-- About to take the lock of `provider`. -/
  | storeProvider (c : Commit)
  | storeAlgo (c : Commit)
  | storeKey (c : Commit)
  /-- Has read `active_algo`, about to take the lock of `active_key`. -/
  | statusKey (algo : AlgoId)
  | loadSealed (r : StatusReport)
  | loadOpened (r : StatusReport)
  | loadErrors (r : StatusReport)
  /-- Holds a copy of the key, about to take the lock of `provider`. -/
  | sealing (key : KeyHandle)
  | opening (key : KeyHandle)
  | done (response : Response)
  | aborted (reason : Panic)
  deriving DecidableEq

structure Task where
  request : Request
  pc : Pc
  deriving DecidableEq

structure Shared where
  state : CryptodState
  /-- The `GetStatus` task that holds the guard of `active_key`. -/
  keyGuard : Option Nat
  deriving DecidableEq

/-- The task leaves a handler body. -/
def finish (sh : Shared) : Outcome CryptodState Response Response → Shared × Pc
  | .ok r s => ({ sh with state := s }, .done r)
  | .err r s => ({ sh with state := s }, .done r)
  | .panic reason => (sh, .aborted reason)

/-- `lock().await` on `active_key`: the task waits while another holds the guard. -/
def withKey (sh : Shared) (next : Shared × Pc) : Option (Shared × Pc) :=
  if sh.keyGuard = none then some next else none

variable (crate : Gcm.Crate)

def statusStep (i : Nat) (elapsed : UInt64) (sh : Shared) : Pc → Option (Shared × Pc)
  | .received => some (sh, .statusKey sh.state.activeAlgo)
  | .statusKey algo =>
    withKey sh ({ sh with keyGuard := some i }, .loadSealed (report elapsed algo sh.state))
  | .loadSealed r => some (sh, .loadOpened { r with packetsSealed := sh.state.packetsSealed })
  | .loadOpened r => some (sh, .loadErrors { r with packetsOpened := sh.state.packetsOpened })
  | .loadErrors r =>
    some ({ sh with keyGuard := none },
      .done (.status { r with cryptoErrors := sh.state.cryptoErrors }))
  | _ => none

def rotateStep (p : RotateKeyParams) (sh : Shared) : Pc → Option (Shared × Pc)
  | .received =>
    match (rotatePrepare crate p).run sh.state with
    | .ok c s => some ({ sh with state := s }, .storeProvider c)
    | .err r s => some ({ sh with state := s }, .done r)
    | .panic reason => some (sh, .aborted reason)
  | .storeProvider c =>
    some ({ sh with state := { sh.state with provider := c.newProvider } }, .storeAlgo c)
  | .storeAlgo c =>
    some ({ sh with state := { sh.state with activeAlgo := c.newAlgo } }, .storeKey c)
  | .storeKey c =>
    withKey sh ({ sh with state := { sh.state with activeKey := some c.newKey } }, .done .ok)
  | _ => none

def encryptStep (p : EncryptParams) (sh : Shared) : Pc → Option (Shared × Pc)
  | .received =>
    withKey sh (match sh.state.activeKey with
      | some key => (sh, .sealing key)
      | none => (sh, .done (.error 409 "no active key — call rotate_key first")))
  | .sealing key =>
    some (finish sh ((sealRequest (sh.state.provider.toProvider crate) key p).run sh.state))
  | _ => none

def decryptStep (p : DecryptParams) (sh : Shared) : Pc → Option (Shared × Pc)
  | .received =>
    withKey sh (match sh.state.activeKey with
      | some key => (sh, .opening key)
      | none => (sh, .done (.error 409 "no active key")))
  | .opening key =>
    some (finish sh ((openRequest (sh.state.provider.toProvider crate) key p).run sh.state))
  | _ => none

def policyStep (sh : Shared) : Pc → Option (Shared × Pc)
  | .received => some (sh, .done .ok)
  | _ => none

def requestStep (i : Nat) (elapsed : UInt64) (sh : Shared) (request : Request) (pc : Pc) :
    Option (Shared × Pc) :=
  match request with
  | .getStatus => statusStep i elapsed sh pc
  | .setPolicy _ => policyStep sh pc
  | .rotateKey p => rotateStep crate p sh pc
  | .encrypt p => encryptStep crate p sh pc
  | .decrypt p => decryptStep crate p sh pc

/-- The next step of task `i`; `elapsed` is what the clock reads. -/
def taskStep (i : Nat) (elapsed : UInt64) (sh : Shared) (t : Task) : Option (Shared × Task) :=
  match requestStep crate i elapsed sh t.request t.pc with
  | none => none
  | some (sh', pc') => some (sh', { t with pc := pc' })

/-- The daemon as a pool of handler tasks. -/
def daemon : Program Shared Task Request UInt64 where
  start req := ⟨req, .received⟩
  step := taskStep crate

abbrev Daemon := Pool Shared Task

/-- No request in flight. -/
def idle (s : CryptodState) : Daemon := ⟨⟨s, none⟩, []⟩

theorem not_mem_idle (s : CryptodState) (t : Task) : t ∉ (idle s).tasks := List.not_mem_nil

/-! ## Everything a step can do -/

/-- The steps of a `GetStatus` handler. -/
inductive StatusMove (i : Nat) (sh : Shared) : Pc → Shared → Pc → Prop where
  | readAlgo : StatusMove i sh .received sh (.statusKey sh.state.activeAlgo)
  | readKey {algo : AlgoId} {elapsed : UInt64} (hguard : sh.keyGuard = none) :
      StatusMove i sh (.statusKey algo) { sh with keyGuard := some i }
        (.loadSealed (report elapsed algo sh.state))
  | readSealed {r : StatusReport} : StatusMove i sh (.loadSealed r) sh
      (.loadOpened { r with packetsSealed := sh.state.packetsSealed })
  | readOpened {r : StatusReport} : StatusMove i sh (.loadOpened r) sh
      (.loadErrors { r with packetsOpened := sh.state.packetsOpened })
  | answer {r : StatusReport} : StatusMove i sh (.loadErrors r) { sh with keyGuard := none }
      (.done (.status { r with cryptoErrors := sh.state.cryptoErrors }))

/-- The steps of the daemon's tasks, by what they do: none of them panics. -/
inductive Move (i : Nat) (sh : Shared) : Task → Shared → Task → Prop where
  | status {sh' : Shared} {pc pc' : Pc} (hmove : StatusMove i sh pc sh' pc') :
      Move i sh ⟨.getStatus, pc⟩ sh' ⟨.getStatus, pc'⟩
  | policy {p : PolicyBlob} : Move i sh ⟨.setPolicy p, .received⟩ sh ⟨.setPolicy p, .done .ok⟩
  | refused {p : RotateKeyParams} {code : UInt32} {message : String} :
      Move i sh ⟨.rotateKey p, .received⟩ sh ⟨.rotateKey p, .done (.error code message)⟩
  | prepared {p : RotateKeyParams} {c : Commit} (haccepted : Accepted crate p c) :
      Move i sh ⟨.rotateKey p, .received⟩ sh ⟨.rotateKey p, .storeProvider c⟩
  | storedProvider {p : RotateKeyParams} {c : Commit} :
      Move i sh ⟨.rotateKey p, .storeProvider c⟩
        { sh with state := { sh.state with provider := c.newProvider } }
        ⟨.rotateKey p, .storeAlgo c⟩
  | storedAlgo {p : RotateKeyParams} {c : Commit} :
      Move i sh ⟨.rotateKey p, .storeAlgo c⟩
        { sh with state := { sh.state with activeAlgo := c.newAlgo } } ⟨.rotateKey p, .storeKey c⟩
  | storedKey {p : RotateKeyParams} {c : Commit} (hguard : sh.keyGuard = none) :
      Move i sh ⟨.rotateKey p, .storeKey c⟩
        { sh with state := { sh.state with activeKey := some c.newKey } }
        ⟨.rotateKey p, .done .ok⟩
  | sealCopied {p : EncryptParams} {key : KeyHandle} (hkey : sh.state.activeKey = some key) :
      Move i sh ⟨.encrypt p, .received⟩ sh ⟨.encrypt p, .sealing key⟩
  | sealNoKey {p : EncryptParams} {message : String} (hkey : sh.state.activeKey = none) :
      Move i sh ⟨.encrypt p, .received⟩ sh ⟨.encrypt p, .done (.error 409 message)⟩
  | sealNonce {p : EncryptParams} {key : KeyHandle} (hn : p.nonce.data.length ≠ 12) :
      Move i sh ⟨.encrypt p, .sealing key⟩ sh ⟨.encrypt p,
        .done (nonceRefusal p.nonce.data.length sh.state.provider.algo)⟩
  | sealed {p : EncryptParams} {key : KeyHandle} {frame : Octets}
      (hn : p.nonce.data.length = 12)
      (hseal : Wire.ringSealFrame crate sh.state.provider key ⟨p.nonce.data, hn⟩
        p.plaintext.data = .ok frame) :
      Move i sh ⟨.encrypt p, .sealing key⟩ { sh with state := sh.state.countSealed }
        ⟨.encrypt p, .done (.ciphertext frame)⟩
  | sealFailed {p : EncryptParams} {key : KeyHandle} {e : CryptoError} {message : String}
      (hn : p.nonce.data.length = 12)
      (hseal : Wire.ringSealFrame crate sh.state.provider key ⟨p.nonce.data, hn⟩
        p.plaintext.data = .error e) :
      Move i sh ⟨.encrypt p, .sealing key⟩ { sh with state := sh.state.countError }
        ⟨.encrypt p, .done (.error 500 message)⟩
  | openCopied {p : DecryptParams} {key : KeyHandle} (hkey : sh.state.activeKey = some key) :
      Move i sh ⟨.decrypt p, .received⟩ sh ⟨.decrypt p, .opening key⟩
  | openNoKey {p : DecryptParams} {message : String} (hkey : sh.state.activeKey = none) :
      Move i sh ⟨.decrypt p, .received⟩ sh ⟨.decrypt p, .done (.error 409 message)⟩
  | opened {p : DecryptParams} {key : KeyHandle} {plaintext : Octets}
      (hopen : Wire.ringOpenFrame crate sh.state.provider key p.frame.data = .ok plaintext) :
      Move i sh ⟨.decrypt p, .opening key⟩ { sh with state := sh.state.countOpened }
        ⟨.decrypt p, .done (.plaintext plaintext)⟩
  | openFailed {p : DecryptParams} {key : KeyHandle} {e : Wire.WireError} {message : String}
      (hopen : Wire.ringOpenFrame crate sh.state.provider key p.frame.data = .error e) :
      Move i sh ⟨.decrypt p, .opening key⟩ { sh with state := sh.state.countError }
        ⟨.decrypt p, .done (.error (openCode e) message)⟩

theorem StatusMove.state_eq {i : Nat} {sh sh' : Shared} {pc pc' : Pc}
    (h : StatusMove i sh pc sh' pc') : sh'.state = sh.state := by
  cases h <;> rfl

variable {crate} {i : Nat} {elapsed : UInt64} {sh sh' : Shared} {t t' : Task} {pc pc' : Pc}

theorem withKey_eq_some {next r : Shared × Pc} (h : withKey sh next = some r) :
    sh.keyGuard = none ∧ r = next := by
  unfold withKey at h
  split at h
  · rename_i hguard
    exact ⟨hguard, (Option.some.inj h).symm⟩
  · cases h

theorem statusMove_of_step (h : statusStep i elapsed sh pc = some (sh', pc')) :
    StatusMove i sh pc sh' pc' := by
  cases pc with
  | received =>
    cases h
    exact .readAlgo
  | statusKey algo =>
    obtain ⟨hguard, hnext⟩ := withKey_eq_some h
    cases hnext
    exact .readKey hguard
  | loadSealed r =>
    cases h
    exact .readSealed
  | loadOpened r =>
    cases h
    exact .readOpened
  | loadErrors r =>
    cases h
    exact .answer
  | _ => cases h

theorem move_of_rotateStep {p : RotateKeyParams}
    (h : rotateStep crate p sh pc = some (sh', pc')) :
    Move crate i sh ⟨.rotateKey p, pc⟩ sh' ⟨.rotateKey p, pc'⟩ := by
  cases pc with
  | received =>
    simp only [rotateStep] at h
    cases hprep : (rotatePrepare crate p : Exec CryptodState Response Commit).run sh.state with
    | ok c s =>
      obtain ⟨rfl, -⟩ := rotatePrepare_eq_ok crate hprep
      rw [hprep] at h
      cases h
      exact .prepared ⟨_, hprep⟩
    | err r s =>
      obtain ⟨rfl, code, message, rfl⟩ := rotatePrepare_eq_err crate hprep
      rw [hprep] at h
      cases h
      exact .refused
    | panic reason =>
      have hreturns := (rotatePrepare_detached crate p).returns sh.state
      rw [hprep] at hreturns
      exact absurd hreturns (Outcome.not_returns_panic reason)
  | storeProvider c =>
    cases h
    exact .storedProvider
  | storeAlgo c =>
    cases h
    exact .storedAlgo
  | storeKey c =>
    obtain ⟨hguard, hnext⟩ := withKey_eq_some h
    cases hnext
    exact .storedKey hguard
  | _ => cases h

theorem move_of_encryptStep {p : EncryptParams}
    (h : encryptStep crate p sh pc = some (sh', pc')) :
    Move crate i sh ⟨.encrypt p, pc⟩ sh' ⟨.encrypt p, pc'⟩ := by
  cases pc with
  | received =>
    obtain ⟨-, hnext⟩ := withKey_eq_some h
    cases hkey : sh.state.activeKey with
    | none =>
      rw [hkey] at hnext
      cases hnext
      exact .sealNoKey hkey
    | some key =>
      rw [hkey] at hnext
      cases hnext
      exact .sealCopied hkey
  | sealing key =>
    simp only [encryptStep, Option.some.injEq] at h
    by_cases hn : p.nonce.data.length = 12
    · rw [sealRequest_run crate sh.state.provider key hn] at h
      cases hseal : Wire.ringSealFrame crate sh.state.provider key ⟨p.nonce.data, hn⟩
          p.plaintext.data with
      | ok frame =>
        rw [hseal] at h
        cases h
        exact .sealed hn hseal
      | error e =>
        rw [hseal] at h
        cases h
        exact .sealFailed hn hseal
    · rw [sealRequest_run_nonce key _ hn] at h
      cases h
      exact .sealNonce hn
  | _ => cases h

theorem move_of_decryptStep {p : DecryptParams}
    (h : decryptStep crate p sh pc = some (sh', pc')) :
    Move crate i sh ⟨.decrypt p, pc⟩ sh' ⟨.decrypt p, pc'⟩ := by
  cases pc with
  | received =>
    obtain ⟨-, hnext⟩ := withKey_eq_some h
    cases hkey : sh.state.activeKey with
    | none =>
      rw [hkey] at hnext
      cases hnext
      exact .openNoKey hkey
    | some key =>
      rw [hkey] at hnext
      cases hnext
      exact .openCopied hkey
  | opening key =>
    simp only [decryptStep, Option.some.injEq, openRequest_run crate sh.state.provider key] at h
    cases hopen : Wire.ringOpenFrame crate sh.state.provider key p.frame.data with
    | ok plaintext =>
      rw [hopen] at h
      cases h
      exact .opened hopen
    | error e =>
      rw [hopen] at h
      cases h
      exact .openFailed hopen
  | _ => cases h

/-- Every step of a task is one of the moves. -/
theorem move_of_step (h : taskStep crate i elapsed sh t = some (sh', t')) :
    Move crate i sh t sh' t' := by
  obtain ⟨request, pc⟩ := t
  cases hstep : requestStep crate i elapsed sh request pc with
  | none =>
    simp only [taskStep, hstep] at h
    cases h
  | some next =>
    obtain ⟨sh'', pc'⟩ := next
    simp only [taskStep, hstep] at h
    cases h
    cases request with
    | getStatus => exact .status (statusMove_of_step hstep)
    | setPolicy p =>
      cases pc with
      | received =>
        cases hstep
        exact .policy
      | _ => cases hstep
    | rotateKey p => exact move_of_rotateStep hstep
    | encrypt p => exact move_of_encryptStep hstep
    | decrypt p => exact move_of_decryptStep hstep

/-- A step of the daemon starts a handler or is a move of one task. -/
theorem daemon_cases {p q : Daemon} {a : Pool.Act Request UInt64}
    (h : Pool.Step (daemon crate) p a q) :
    (∃ req, a = .spawn req ∧ q = ⟨p.shared, p.tasks ++ [⟨req, .received⟩]⟩) ∨
    ∃ i elapsed t sh' t', a = .run i elapsed ∧ p.tasks[i]? = some t ∧
      Move crate i p.shared t sh' t' ∧ q = ⟨sh', p.tasks.set i t'⟩ := by
  obtain ⟨req, ha, hq⟩ | ⟨i, elapsed, t, sh', t', ha, ht, hstep, hq⟩ := Pool.step_cases h
  · exact .inl ⟨req, ha, hq⟩
  · exact .inr ⟨i, elapsed, t, sh', t', ha, ht, move_of_step hstep, hq⟩

/-- A step of one task. -/
theorem run_cases {p q : Daemon} (h : Pool.Step (daemon crate) p (.run i elapsed) q) :
    ∃ t sh' t', p.tasks[i]? = some t ∧ Move crate i p.shared t sh' t' ∧
      q = ⟨sh', p.tasks.set i t'⟩ := by
  obtain ⟨req, hact, -⟩ | ⟨j, x, t, sh', t', hact, ht, hmove, hq⟩ := daemon_cases h
  · cases hact
  · cases hact
    exact ⟨t, sh', t', ht, hmove, hq⟩

/-- An answered handler takes no further step. -/
theorem done_finished (request : Request) (response : Response) (i : Nat) (elapsed : UInt64)
    (sh : Shared) : (daemon crate).step i elapsed sh ⟨request, .done response⟩ = none := by
  cases request <;> rfl

end Cryptod

end SmartSfp
