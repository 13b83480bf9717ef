import SmartSfp.Cryptod.Freshness
import SmartSfp.Cryptod.Solo
import SmartSfp.Cryptod.Status

/-!
# Serial — concurrent handlers that do what handlers one at a time do

A handler takes effect in the step in which it answers.  What it has read before that still holds
then, when a rotation stores while no other handler is at work, and when nothing is counted between
the loads of a `GetStatus`.  In such a run the answers, in the order they were given, are those of
the sequential daemon.
-/

namespace SmartSfp

namespace Cryptod

open Lib Exec Ipc

/-! ## The answers of a run -/

/-- The uptime in the answer; any other answer has none. -/
def clock (elapsed : UInt64) : Response → UInt64
  | .status r => r.uptimeS
  | _ => elapsed

/-- The exchange of a task that was just answered. -/
def Task.exchange (elapsed : UInt64) (t : Task) : List Exchange :=
  match t.pc with
  | .done response => [⟨t.request, clock elapsed response, response⟩]
  | _ => []

/-- The exchange that a step of the daemon ends. -/
def answers (crate : Gcm.Crate) (d : Daemon) : Pool.Act Request UInt64 → List Exchange
  | .spawn _ => []
  | .run i elapsed =>
    match d.tasks[i]? with
    | some t =>
      match taskStep crate i elapsed d.shared t with
      | some (_, t') => t'.exchange elapsed
      | none => []
    | none => []

/-! ## Handlers that keep apart -/

/-- The handler has read something of the state and not answered. -/
def Pc.Reading : Pc → Prop
  | .statusKey _ | .loadSealed _ | .loadOpened _ | .loadErrors _ | .sealing _ | .opening _ => True
  | _ => False

/-- A `GetStatus` that has loaded a counter and not answered. -/
def Pc.Loading : Pc → Prop
  | .loadOpened _ | .loadErrors _ => True
  | _ => False

/-- No handler is disturbed: a rotation takes its first store only while no handler has read
anything, no other handler takes a step until its last store, and no result is counted while a
`GetStatus` loads the counters. -/
structure Apart (d : Daemon) (a : Pool.Act Request UInt64) : Prop where
  stores : ∀ i elapsed p c, a = .run i elapsed →
    d.tasks[i]? = some ⟨.rotateKey p, .storeProvider c⟩ →
    ∀ u ∈ d.tasks, ¬ u.pc.Reading
  waits : ∀ i elapsed, a = .run i elapsed → ∀ j u, d.tasks[j]? = some u → u.MidCommit → j = i
  counts : ∀ i elapsed t key, a = .run i elapsed → d.tasks[i]? = some t → t.Holds key →
    ∀ u ∈ d.tasks, ¬ u.pc.Loading

/-- What the handler has read is what `s` holds. -/
def Pc.Current (s : CryptodState) : Pc → Prop
  | .statusKey algo => algo = s.activeAlgo
  | .loadSealed r =>
    ∃ n m e, r = { Cryptod.report r.uptimeS s.activeAlgo s with
      packetsSealed := n, packetsOpened := m, cryptoErrors := e }
  | .loadOpened r =>
    ∃ m e, r =
      { Cryptod.report r.uptimeS s.activeAlgo s with packetsOpened := m, cryptoErrors := e }
  | .loadErrors r => ∃ e, r = { Cryptod.report r.uptimeS s.activeAlgo s with cryptoErrors := e }
  | .sealing key | .opening key => s.activeKey = some key
  | .storeAlgo _ | .storeKey _ => False
  | .received | .storeProvider _ | .done _ | .aborted _ => True

/-- The handler depends on nothing it has read. -/
def Pc.Calm : Pc → Prop
  | .received | .storeProvider _ | .done _ | .aborted _ => True
  | _ => False

variable {crate : Gcm.Crate} {s s' s₀ : CryptodState} {d d' : Daemon}
  {a : Pool.Act Request UInt64} {i : Nat} {elapsed : UInt64} {sh sh' : Shared} {t t' : Task}
  {pc pc' : Pc} {log : List Exchange}

theorem Pc.Calm.current (h : pc.Calm) (s : CryptodState) : pc.Current s := by
  cases pc <;> trivial

theorem Pc.Current.calm (h : pc.Current s) (hread : ¬ pc.Reading) : pc.Calm := by
  cases pc <;> first | trivial | exact absurd trivial hread

/-- Results that are counted change only the counters, which only a loading `GetStatus` has read. -/
theorem Pc.Current.of_sameKey (h : pc.Current s) (hsame : SameKey s s') (hload : ¬ pc.Loading) :
    pc.Current s' := by
  obtain ⟨-, halgo, hkey⟩ := hsame
  cases pc with
  | statusKey algo => exact h.trans halgo.symm
  | loadSealed r =>
    obtain ⟨n, m, e, hr⟩ := h
    refine ⟨n, m, e, ?_⟩
    simp only [Cryptod.report, halgo, hkey]
    exact hr
  | loadOpened r => exact absurd trivial hload
  | loadErrors r => exact absurd trivial hload
  | sealing key => exact hkey.trans h
  | opening key => exact hkey.trans h
  | storeAlgo c => exact h
  | storeKey c => exact h
  | _ => trivial

/-! ## A step of a handler that reads -/

/-- What a step of a handler does when nothing it has read has changed: it goes on without changing
the state, or answers as the sequential handler would. -/
inductive Effect (crate : Gcm.Crate) (elapsed : UInt64) (s : CryptodState) (t : Task)
    (sh' : Shared) (t' : Task) : Prop where
  | quiet (hstate : sh'.state = s) (hcurrent : t'.pc.Current s)
      (hopen : ∀ response, t'.pc ≠ .done response)
  | answered {response : Response} (hdone : t' = ⟨t.request, .done response⟩)
      (hhandles : Handles crate s ⟨t.request, clock elapsed response, response⟩ sh'.state)
      (hstate : sh'.state = s ∨ SameKey s sh'.state ∧ ∃ key, t.Holds key)

/-- What a body leaves when it does not panic is what the sequential handler returns. -/
theorem returning_of_finish {x : Exec CryptodState Response Response} {response : Response}
    (h : finish sh (x.run s) = (sh', .done response)) :
    (returning x : Exec CryptodState Empty Response).run s = .ok response sh'.state := by
  cases hx : x.run s with
  | ok r u =>
    rw [hx] at h
    cases h
    exact run_returning_ok hx
  | err r u =>
    rw [hx] at h
    cases h
    exact run_returning_err hx
  | panic reason =>
    rw [hx] at h
    cases h

theorem effect_of_status (hcurrent : pc.Current sh.state)
    (h : StatusMove i sh pc sh' pc') :
    Effect crate elapsed sh.state ⟨.getStatus, pc⟩ sh' ⟨.getStatus, pc'⟩ := by
  cases h with
  | readAlgo => exact .quiet rfl rfl (fun _ h => by cases h)
  | @readKey algo elapsed' hguard =>
    cases hcurrent
    exact .quiet rfl ⟨_, _, _, rfl⟩ (fun _ h => by cases h)
  | @readSealed r =>
    obtain ⟨n, m, e, hr⟩ := hcurrent
    refine .quiet rfl ⟨m, e, ?_⟩ (fun _ h => by cases h)
    rw [hr]
    rfl
  | @readOpened r =>
    obtain ⟨m, e, hr⟩ := hcurrent
    refine .quiet rfl ⟨e, ?_⟩ (fun _ h => by cases h)
    rw [hr]
    rfl
  | @answer r =>
    obtain ⟨e, hr⟩ := hcurrent
    refine .answered rfl ?_ (.inl rfl)
    rw [Handles, hr]
    rfl

/-- A handler that uses its copy of the key, in the body `x` of the sequential handler `y`. -/
theorem effect_of_use {request : Request} {key : KeyHandle}
    {x y : Exec CryptodState Response Response} (hkey : Task.Holds ⟨request, pc⟩ key)
    (hhandle : ∀ e, handle crate e request = returning y)
    (hbody : y.run sh.state = x.run sh.state)
    (hsame : SameKey sh.state sh'.state) (h : finish sh (x.run sh.state) = (sh', pc')) :
    Effect crate elapsed sh.state ⟨request, pc⟩ sh' ⟨request, pc'⟩ := by
  have hdone {response : Response} (hpc : pc' = .done response) :
      Effect crate elapsed sh.state ⟨request, pc⟩ sh' ⟨request, pc'⟩ := by
    subst hpc
    refine .answered rfl ?_ (.inr ⟨hsame, key, hkey⟩)
    rw [← hbody] at h
    rw [Handles, hhandle]
    exact returning_of_finish h
  cases hx : x.run sh.state with
  | ok r u =>
    rw [hx] at h
    exact hdone (congrArg Prod.snd h).symm
  | err r u =>
    rw [hx] at h
    exact hdone (congrArg Prod.snd h).symm
  | panic reason =>
    rw [hx] at h
    cases h
    exact .quiet rfl trivial (fun _ h => by cases h)

/-- Encryptions and decryptions store nothing. -/
theorem sameKey_of_use {request : Request}
    (hmove : Move crate i sh ⟨request, pc⟩ sh' ⟨request, pc'⟩)
    (hnot : ∀ p, request ≠ .rotateKey p) : SameKey sh.state sh'.state := by
  obtain ⟨-, -, -, hsame⟩ | ⟨p, c, hmid | hmid⟩ | ⟨p, c, ht, -⟩ := hmove.quiet_or_stores
  · exact hsame
  · cases hmid
    exact absurd rfl (hnot p)
  · cases hmid
    exact absurd rfl (hnot p)
  · cases ht
    exact absurd rfl (hnot p)

theorem effect_of_encrypt {p : EncryptParams} (hcurrent : pc.Current sh.state)
    (h : encryptStep crate p sh pc = some (sh', pc')) :
    Effect crate elapsed sh.state ⟨.encrypt p, pc⟩ sh' ⟨.encrypt p, pc'⟩ := by
  have hsame : SameKey sh.state sh'.state :=
    sameKey_of_use (i := 0) (move_of_encryptStep h) (fun _ h => by cases h)
  cases pc with
  | received =>
    obtain ⟨-, hnext⟩ := withKey_eq_some h
    cases hkey : sh.state.activeKey with
    | none =>
      rw [hkey] at hnext
      cases hnext
      refine .answered rfl (run_returning_err ?_) (.inl rfl)
      simp only [handleEncrypt, run_bind, run_get, Outcome.bind_ok, hkey, run_okOr_none,
        Outcome.bind_err]
    | some key =>
      rw [hkey] at hnext
      cases hnext
      exact .quiet rfl hkey (fun _ h => by cases h)
  | sealing key =>
    have hkey : sh.state.activeKey = some key := hcurrent
    have hbody : (handleEncrypt crate p).run sh.state =
        (sealRequest (sh.state.provider.toProvider crate) key p).run sh.state := by
      simp only [handleEncrypt, run_bind, run_get, Outcome.bind_ok, hkey, run_okOr_some]
    exact effect_of_use (.inl rfl) (fun _ => rfl) hbody hsame (Option.some.inj h)
  | _ => cases h

theorem effect_of_decrypt {p : DecryptParams} (hcurrent : pc.Current sh.state)
    (h : decryptStep crate p sh pc = some (sh', pc')) :
    Effect crate elapsed sh.state ⟨.decrypt p, pc⟩ sh' ⟨.decrypt p, pc'⟩ := by
  have hsame : SameKey sh.state sh'.state :=
    sameKey_of_use (i := 0) (move_of_decryptStep h) (fun _ h => by cases h)
  cases pc with
  | received =>
    obtain ⟨-, hnext⟩ := withKey_eq_some h
    cases hkey : sh.state.activeKey with
    | none =>
      rw [hkey] at hnext
      cases hnext
      refine .answered rfl (run_returning_err ?_) (.inl rfl)
      simp only [handleDecrypt, run_bind, run_get, Outcome.bind_ok, hkey, run_okOr_none,
        Outcome.bind_err]
    | some key =>
      rw [hkey] at hnext
      cases hnext
      exact .quiet rfl hkey (fun _ h => by cases h)
  | opening key =>
    have hkey : sh.state.activeKey = some key := hcurrent
    have hbody : (handleDecrypt crate p).run sh.state =
        (openRequest (sh.state.provider.toProvider crate) key p).run sh.state := by
      simp only [handleDecrypt, run_bind, run_get, Outcome.bind_ok, hkey, run_okOr_some]
    exact effect_of_use (.inr rfl) (fun _ => rfl) hbody hsame (Option.some.inj h)
  | _ => cases h

/-- A rotation up to its first store. -/
theorem effect_of_prepare {p : RotateKeyParams}
    (h : rotateStep crate p sh .received = some (sh', pc')) :
    Effect crate elapsed sh.state ⟨.rotateKey p, .received⟩ sh' ⟨.rotateKey p, pc'⟩ := by
  simp only [rotateStep] at h
  cases hprep : (rotatePrepare crate p : Exec CryptodState Response Commit).run sh.state with
  | ok c u =>
    obtain ⟨rfl, -⟩ := rotatePrepare_eq_ok crate hprep
    rw [hprep] at h
    cases h
    exact .quiet rfl trivial (fun _ h => by cases h)
  | err r u =>
    obtain ⟨rfl, -⟩ := rotatePrepare_eq_err crate hprep
    rw [hprep] at h
    cases h
    refine .answered rfl (run_returning_err ?_) (.inl rfl)
    rw [run_bind, hprep]
    rfl
  | panic reason =>
    rw [hprep] at h
    cases h
    exact .quiet rfl trivial (fun _ h => by cases h)

/-- A step of a task is one of its request. -/
theorem exists_requestStep {request : Request}
    (h : taskStep crate i elapsed sh ⟨request, pc⟩ = some (sh', t')) :
    ∃ pc', t' = ⟨request, pc'⟩ ∧ requestStep crate i elapsed sh request pc = some (sh', pc') := by
  cases hstep : requestStep crate i elapsed sh request pc with
  | none =>
    simp only [taskStep, hstep] at h
    cases h
  | some next =>
    simp only [taskStep, hstep] at h
    cases h
    exact ⟨next.2, rfl, rfl⟩

/-- Every step but the stores of a rotation. -/
theorem effect_of_step (hcurrent : t.pc.Current sh.state)
    (hnot : ∀ p c, t ≠ ⟨.rotateKey p, .storeProvider c⟩)
    (h : taskStep crate i elapsed sh t = some (sh', t')) :
    Effect crate elapsed sh.state t sh' t' := by
  obtain ⟨request, pc⟩ := t
  obtain ⟨pc', rfl, hstep⟩ := exists_requestStep h
  cases request with
  | getStatus => exact effect_of_status hcurrent (statusMove_of_step hstep)
  | setPolicy p =>
    cases pc with
    | received =>
      cases hstep
      exact .answered rfl rfl (.inl rfl)
    | _ => cases hstep
  | rotateKey p =>
    cases pc with
    | received => exact effect_of_prepare hstep
    | storeProvider c => exact absurd rfl (hnot p c)
    | storeAlgo c => exact hcurrent.elim
    | storeKey c => exact hcurrent.elim
    | _ => cases hstep
  | encrypt p => exact effect_of_encrypt hcurrent hstep
  | decrypt p => exact effect_of_decrypt hcurrent hstep

/-! ## The sequential run behind a concurrent one -/

/-- Where the daemon is when the sequential daemon is in `s`. -/
inductive Stage (s : CryptodState) (d : Daemon) : Prop where
  | settled (hstate : d.shared.state = s) (hcurrent : ∀ t ∈ d.tasks, t.pc.Current s)
  | storedProvider {i : Nat} {p : RotateKeyParams} {c : Commit}
      (ht : d.tasks[i]? = some ⟨.rotateKey p, .storeAlgo c⟩)
      (hstate : d.shared.state = { s with provider := c.newProvider })
      (hcalm : ∀ j u, j ≠ i → d.tasks[j]? = some u → u.pc.Calm)
  | storedAlgo {i : Nat} {p : RotateKeyParams} {c : Commit}
      (ht : d.tasks[i]? = some ⟨.rotateKey p, .storeKey c⟩)
      (hstate : d.shared.state =
        { s with provider := c.newProvider, activeAlgo := c.newAlgo })
      (hcalm : ∀ j u, j ≠ i → d.tasks[j]? = some u → u.pc.Calm)

/-- Each answer is in the log as often as it was given. -/
def Logged (d : Daemon) (log : List Exchange) : Prop :=
  ∀ request response, d.tasks.countP (fun t => t = ⟨request, .done response⟩) =
    log.countP fun x => x.request = request ∧ x.response = response

theorem Stage.spawn (h : Stage s d) (request : Request) :
    Stage s ⟨d.shared, d.tasks ++ [⟨request, .received⟩]⟩ := by
  have hcalm {k : Nat} (hcalm : ∀ j u, j ≠ k → d.tasks[j]? = some u → u.pc.Calm) (j : Nat)
      (u : Task)
      (hj : j ≠ k) (hu : (d.tasks ++ [⟨request, .received⟩])[j]? = some u) : u.pc.Calm := by
    rw [List.getElem?_append] at hu
    split at hu
    · exact hcalm j u hj hu
    · rw [List.mem_singleton.mp (List.mem_of_getElem? hu)]
      trivial
  cases h with
  | settled hstate hcurrent =>
    refine .settled hstate fun t ht => ?_
    rcases List.mem_append.mp ht with ht | ht
    · exact hcurrent t ht
    · rw [List.mem_singleton.mp ht]
      trivial
  | storedProvider ht hstate hothers =>
    exact .storedProvider (getElem?_of_initial (List.prefix_append _ _) ht) hstate (hcalm hothers)
  | storedAlgo ht hstate hothers =>
    exact .storedAlgo (getElem?_of_initial (List.prefix_append _ _) ht) hstate (hcalm hothers)

theorem Logged.spawn (h : Logged d log) (request : Request) :
    Logged ⟨d.shared, d.tasks ++ [⟨request, .received⟩]⟩ log := by
  intro req response
  rw [List.countP_append, h req response]
  simp

/-- A step of a task that had no answer, with the exchange it ends. -/
theorem Logged.step (h : Logged d log) (ht : d.tasks[i]? = some t)
    (hopen : ∀ response, t.pc ≠ .done response) :
    Logged ⟨sh', d.tasks.set i t'⟩ (log ++ t'.exchange elapsed) := by
  intro request response
  have hset := Pool.countP_set (fun u => decide (u = ⟨request, .done response⟩)) t' ht
  have hnot : t ≠ ⟨request, .done response⟩ := fun heq => hopen response (congrArg Task.pc heq)
  rw [decide_eq_false hnot] at hset
  rw [List.countP_append, ← h request response]
  show (d.tasks.set i t').countP _ = _
  obtain ⟨request', pc'⟩ := t'
  cases pc' with
  | done response' =>
    simp only [Task.exchange, List.countP_singleton]
    simp only [Task.mk.injEq, Pc.done.injEq, Bool.false_eq_true, if_false, Nat.add_zero] at hset
    simpa using hset
  | _ => simpa [Task.exchange] using hset

/-- The task that takes a step in `Apart`, when it is not the rotation that is storing. -/
theorem Apart.not_storing (hapart : Apart d (.run i elapsed)) {j : Nat} {u : Task}
    (hu : d.tasks[j]? = some u) (hmid : u.MidCommit) : i = j :=
  (hapart.waits i elapsed rfl j u hu hmid).symm

/-- The stores of a rotation that the sequential daemon has not begun yet. -/
theorem run_storeProvider {p : RotateKeyParams} {c : Commit}
    (h : taskStep crate i elapsed sh ⟨.rotateKey p, .storeProvider c⟩ = some (sh', t')) :
    sh'.state = { sh.state with provider := c.newProvider } ∧
      t' = ⟨.rotateKey p, .storeAlgo c⟩ := by
  cases h
  exact ⟨rfl, rfl⟩

theorem run_storeAlgo {p : RotateKeyParams} {c : Commit}
    (h : taskStep crate i elapsed sh ⟨.rotateKey p, .storeAlgo c⟩ = some (sh', t')) :
    sh'.state = { sh.state with activeAlgo := c.newAlgo } ∧ t' = ⟨.rotateKey p, .storeKey c⟩ := by
  cases h
  exact ⟨rfl, rfl⟩

theorem run_storeKey {p : RotateKeyParams} {c : Commit}
    (h : taskStep crate i elapsed sh ⟨.rotateKey p, .storeKey c⟩ = some (sh', t')) :
    sh'.state = { sh.state with activeKey := some c.newKey } ∧ t' = ⟨.rotateKey p, .done .ok⟩ := by
  cases move_of_step h with
  | storedKey hguard => exact ⟨rfl, rfl⟩

/-- An accepted rotation is accepted in every state. -/
theorem Accepted.handles {p : RotateKeyParams} {c : Commit} (h : Accepted crate p c)
    (s : CryptodState) : Handles crate s ⟨.rotateKey p, elapsed, .ok⟩ (s.commit c) := by
  obtain ⟨u, hu⟩ := h
  have hprep : (rotatePrepare crate p : Exec CryptodState Response Commit).run s = .ok c s := by
    obtain ⟨c', hc'⟩ | ⟨e, he⟩ := rotatePrepare_detached (σ := CryptodState) crate p
    · rw [hc'] at hu
      cases hu
      exact hc' s
    · rw [he] at hu
      cases hu
  exact run_returning_ok (by rw [run_bind, hprep]; rfl)

/-- The tasks but one are calm, and so is that one after its last store. -/
theorem current_of_calm (ht : d.tasks[i]? = some t) (ht' : t'.pc.Calm)
    (hcalm : ∀ j u, j ≠ i → d.tasks[j]? = some u → u.pc.Calm) (s : CryptodState) :
    ∀ u ∈ d.tasks.set i t', u.pc.Current s := by
  intro u hu
  obtain ⟨j, hj⟩ := List.getElem?_of_mem hu
  rw [Pool.getElem?_set ht] at hj
  split at hj
  · cases hj
    exact ht'.current s
  · rename_i hne
    exact (hcalm j u hne hj).current s

theorem calm_set (ht : d.tasks[i]? = some t)
    (hcalm : ∀ j u, j ≠ i → d.tasks[j]? = some u → u.pc.Calm) :
    ∀ j u, j ≠ i → (d.tasks.set i t')[j]? = some u → u.pc.Calm := by
  intro j u hj hu
  rw [Pool.getElem?_set ht, if_neg hj] at hu
  exact hcalm j u hj hu

/-- A step of a run that keeps apart takes the sequential daemon through the exchange it ends. -/
theorem Stage.step (h : Stage s d) (hfor : ∀ t ∈ d.tasks, t.CommitFor crate)
    (hapart : Apart d (.run i elapsed)) (ht : d.tasks[i]? = some t)
    (hstep : taskStep crate i elapsed d.shared t = some (sh', t')) :
    ∃ s', Run (Handles crate) s (t'.exchange elapsed) s' ∧ Stage s' ⟨sh', d.tasks.set i t'⟩ := by
  cases h with
  | settled hstate hcurrent =>
    subst hstate
    by_cases hstore : ∃ p c, t = ⟨.rotateKey p, .storeProvider c⟩
    · -- nothing that was read is still needed, so all others are calm
      obtain ⟨p, c, rfl⟩ := hstore
      obtain ⟨hstate', rfl⟩ := run_storeProvider hstep
      have hcalm (j : Nat) (u : Task) (_ : j ≠ i) (hu : d.tasks[j]? = some u) : u.pc.Calm :=
        have hmem := List.mem_of_getElem? hu
        (hcurrent u hmem).calm (hapart.stores i elapsed p c rfl ht u hmem)
      refine ⟨_, .nil, .storedProvider (i := i) (p := p) (c := c) ?_ hstate' (calm_set ht hcalm)⟩
      exact (Pool.getElem?_set ht i).trans (if_pos rfl)
    · obtain ⟨hstate', hnow, hopen⟩ | ⟨hdone, hhandles, hstate'⟩ :=
        effect_of_step (hcurrent t (List.mem_of_getElem? ht))
          (fun p c heq => hstore ⟨p, c, heq⟩) hstep
      · refine ⟨_, ?_, .settled hstate' fun u hu => ?_⟩
        · unfold Task.exchange
          split
          · rename_i response hpc
            exact absurd hpc (hopen response)
          · exact .nil
        · rcases List.mem_or_eq_of_mem_set hu with hu | rfl
          · exact hcurrent u hu
          · exact hnow
      · subst hdone
        refine ⟨_, Run.single hhandles, .settled rfl fun u hu => ?_⟩
        rcases List.mem_or_eq_of_mem_set hu with hu | rfl
        · obtain hsame | ⟨hsame, key, hholds⟩ := hstate'
          · rw [hsame]
            exact hcurrent u hu
          · exact (hcurrent u hu).of_sameKey hsame
              (hapart.counts i elapsed t key rfl ht hholds u hu)
        · trivial
  | @storedProvider j p c hj hstate hcalm =>
    cases hapart.not_storing hj ⟨p, c, .inl rfl⟩
    rw [hj] at ht
    cases ht
    obtain ⟨hstate', rfl⟩ := run_storeAlgo hstep
    refine ⟨s, .nil, .storedAlgo (i := i) (p := p) (c := c) ?_ ?_ (calm_set hj hcalm)⟩
    · exact (Pool.getElem?_set hj i).trans (if_pos rfl)
    · rw [hstate', hstate]
  | @storedAlgo j p c hj hstate hcalm =>
    cases hapart.not_storing hj ⟨p, c, .inr rfl⟩
    rw [hj] at ht
    cases ht
    obtain ⟨hstate', rfl⟩ := run_storeKey hstep
    obtain ⟨q, hq, haccepted⟩ := hfor _ (List.mem_of_getElem? hj) c rfl
    cases hq
    refine ⟨s.commit c, Run.single (haccepted.handles s), .settled ?_ ?_⟩
    · rw [hstate', hstate]
      rfl
    · have hdone : Pc.Calm (.done .ok) := trivial
      exact current_of_calm hj hdone hcalm _

/-- A handler starts only when every one before it has answered. -/
def Lone (d : Daemon) (a : Pool.Act Request UInt64) : Prop :=
  ∀ request, a = .spawn request → ∀ t ∈ d.tasks, ∃ response, t.pc = .done response

/-- Where every handler has answered there is nothing between the two. -/
theorem stage_iff_of_done (hdone : ∀ t ∈ d.tasks, ∃ response, t.pc = .done response) :
    Stage s d ↔ d.shared.state = s := by
  have hopen {j : Nat} {u : Task} (hu : d.tasks[j]? = some u)
      (hnot : ∀ response, u.pc ≠ .done response) :
      False := by
    obtain ⟨response, hpc⟩ := hdone u (List.mem_of_getElem? hu)
    exact hnot response hpc
  constructor
  · intro hstage
    cases hstage with
    | settled hstate _ => exact hstate
    | storedProvider ht _ _ => exact (hopen ht (by simp)).elim
    | storedAlgo ht _ _ => exact (hopen ht (by simp)).elim
  · intro hstate
    refine .settled hstate fun t ht => ?_
    obtain ⟨response, hpc⟩ := hdone t ht
    rw [hpc]
    trivial

/-- The task that is left of an exchange. -/
def Exchange.task (x : Exchange) : Task := ⟨x.request, .done x.response⟩

/-- The tasks are those of the exchanges in `xs`, in order, and at most one that has not
answered. -/
def Queue (d : Daemon) (xs : List Exchange) : Prop :=
  d.tasks = xs.map Exchange.task ∨
    ∃ t, (∀ response, t.pc ≠ .done response) ∧ d.tasks = xs.map Exchange.task ++ [t]

/-- The task that takes a step is the one at the end. -/
theorem Queue.last {xs : List Exchange} (h : Queue d xs) (ht : d.tasks[i]? = some t)
    (hopen : ∀ response, t.pc ≠ .done response) :
    i = xs.length ∧ d.tasks = xs.map Exchange.task ++ [t] := by
  have hnot {j : Nat} {u : Task} (hu : (xs.map Exchange.task)[j]? = some u) :
      ∃ response, u.pc = .done response := by
    obtain ⟨x, -, rfl⟩ := List.mem_map.mp (List.mem_of_getElem? hu)
    exact ⟨_, rfl⟩
  obtain htasks | ⟨u, -, htasks⟩ := h
  · rw [htasks] at ht
    obtain ⟨response, hdone⟩ := hnot ht
    exact absurd hdone (hopen response)
  · rw [htasks, List.getElem?_append] at ht
    split at ht
    · obtain ⟨response, hdone⟩ := hnot ht
      exact absurd hdone (hopen response)
    · rename_i hle
      obtain ⟨hlt, hu⟩ := List.getElem?_eq_some_iff.mp ht
      simp only [List.length_map, List.length_singleton] at hle hlt
      have hi : i = xs.length := by omega
      subst hi
      simp only [List.length_map, Nat.sub_self, List.getElem_cons_zero] at hu
      exact ⟨rfl, hu ▸ htasks⟩

/-- No task was added behind those of `xs`. -/
theorem Queue.none_added {xs ys : List Exchange} (h : Queue d (xs ++ ys))
    (hlength : d.tasks.length = xs.length) : ys = [] ∧ d.tasks = xs.map Exchange.task := by
  obtain htasks | ⟨t, -, htasks⟩ := h
  · have hnil : ys = [] := by
      rw [htasks] at hlength
      simp only [List.length_map, List.length_append] at hlength
      exact List.eq_nil_of_length_eq_zero (by omega)
    refine ⟨hnil, ?_⟩
    rw [htasks, hnil, List.append_nil]
  · rw [htasks] at hlength
    simp only [List.length_map, List.length_append, List.length_singleton] at hlength
    omega

/-- One task was added behind those of `xs`, and it has answered. -/
theorem Queue.one_added {xs ys : List Exchange} {request : Request} {response : Response}
    (h : Queue d (xs ++ ys)) (hlength : d.tasks.length = xs.length + 1)
    (ht : d.tasks[xs.length]? = some ⟨request, .done response⟩) :
    ∃ elapsed, ys = [⟨request, elapsed, response⟩] ∧
      d.tasks = (xs ++ ys).map Exchange.task := by
  obtain htasks | ⟨t, hnot, htasks⟩ := h
  · obtain ⟨x, rfl⟩ : ∃ x, ys = [x] := by
      rw [htasks] at hlength
      simp only [List.length_map, List.length_append] at hlength
      exact List.length_eq_one_iff.mp (by omega)
    have hx : x.task = ⟨request, .done response⟩ := by
      rw [htasks] at ht
      simpa using ht
    obtain ⟨xrequest, elapsed, xresponse⟩ := x
    cases hx
    exact ⟨elapsed, rfl, htasks⟩
  · have hnil : ys = [] := by
      rw [htasks] at hlength
      simp only [List.length_map, List.length_append, List.length_singleton] at hlength
      exact List.eq_nil_of_length_eq_zero (by omega)
    subst hnil
    rw [htasks] at ht
    have ht : t = ⟨request, .done response⟩ := by simpa using ht
    exact absurd (congrArg Task.pc ht) (hnot response)

/-- All tasks but the one that takes a step have answered, so it disturbs none. -/
theorem Queue.apart {xs : List Exchange} (h : Queue d xs) (ht : d.tasks[i]? = some t)
    (hopen : ∀ response, t.pc ≠ .done response) : Apart d (.run i elapsed) := by
  obtain ⟨hi, htasks⟩ := h.last ht hopen
  have hcases {u : Task} (hu : u ∈ d.tasks) : (∃ response, u.pc = .done response) ∨ u = t := by
    rw [htasks] at hu
    rcases List.mem_append.mp hu with hu | hu
    · obtain ⟨x, -, rfl⟩ := List.mem_map.mp hu
      exact .inl ⟨_, rfl⟩
    · exact .inr (List.mem_singleton.mp hu)
  constructor
  · intro j elapsed' p c hact hj u hu
    cases hact
    rw [ht] at hj
    cases hj
    obtain ⟨response, hdone⟩ | rfl := hcases hu
    · rw [hdone]
      exact id
    · exact id
  · intro j elapsed' hact k u hk hmid
    cases hact
    have hopen' (response : Response) : u.pc ≠ .done response := by
      rintro hdone
      obtain ⟨p, c, rfl | rfl⟩ := hmid <;> cases hdone
    exact (h.last hk hopen').1.trans hi.symm
  · intro j elapsed' u key hact hu hholds v hv
    cases hact
    rw [ht] at hu
    cases hu
    obtain ⟨response, hdone⟩ | rfl := hcases hv
    · rw [hdone]
      exact id
    · rcases hholds with hpc | hpc
      · rw [hpc]
        exact id
      · rw [hpc]
        exact id

/-- One handler at a time is the sequential daemon, exchange for exchange, from any state the daemon
is in on. -/
theorem lone_sequential_from {d₀ : Daemon} {xs₀ : List Exchange}
    {acts₀ acts : List (Pool.Act Request UInt64)}
    (hreach : Run (Pool.Step (daemon crate)) (idle s₀) acts₀ d₀) (hstage₀ : Stage s d₀)
    (hqueue₀ : Queue d₀ xs₀) (hrun : Run (When Lone (Pool.Step (daemon crate))) d₀ acts d) :
    ∃ xs s', Run (Handles crate) s xs s' ∧ Stage s' d ∧ Queue d (xs₀ ++ xs) := by
  induction hrun with
  | nil =>
    refine ⟨[], s, .nil, hstage₀, ?_⟩
    rw [List.append_nil]
    exact hqueue₀
  | @snoc acts d d' a run last ih =>
    obtain ⟨xs, s, hseq, hstage, hqueue⟩ := ih
    obtain ⟨hlone, hstep⟩ := last
    have hfor := run_commitFor (hreach.append run.forget)
    obtain ⟨request, rfl, rfl⟩ | ⟨i, elapsed, t, sh', t', rfl, ht, htask, rfl⟩ :=
      Pool.step_cases hstep
    · refine ⟨xs, s, hseq, hstage.spawn request, .inr ⟨⟨request, .received⟩, by simp, ?_⟩⟩
      obtain htasks | ⟨u, hopen, htasks⟩ := hqueue
      · rw [← htasks]
        rfl
      · obtain ⟨response, hdone⟩ := hlone request rfl u (by simp [htasks])
        exact absurd hdone (hopen response)
    · have htask : taskStep crate i elapsed d.shared t = some (sh', t') := htask
      have hopen (response : Response) := (move_of_step htask).not_done response
      obtain ⟨s', hmore, hstage'⟩ := hstage.step hfor (hqueue.apart ht hopen) ht htask
      obtain ⟨hi, htasks⟩ := hqueue.last ht hopen
      refine ⟨_, s', hseq.append hmore, hstage', ?_⟩
      have hset : d.tasks.set i t' = (xs₀ ++ xs).map Exchange.task ++ [t'] := by
        rw [htasks, hi, List.set_append_right _ _ (by simp)]
        simp
      by_cases hdone : ∃ response, t'.pc = .done response
      · obtain ⟨response, hdone⟩ := hdone
        left
        obtain ⟨request, pc⟩ := t'
        cases hdone
        exact hset.trans (by simp [Task.exchange, Exchange.task])
      · have hnone : t'.exchange elapsed = [] := by
          unfold Task.exchange
          split
          · rename_i response hpc
            exact absurd ⟨response, hpc⟩ hdone
          · rfl
        refine .inr ⟨t', fun response hpc => hdone ⟨response, hpc⟩, ?_⟩
        rw [hnone, List.append_nil]
        exact hset

theorem lone_sequential {acts : List (Pool.Act Request UInt64)}
    (hrun : Run (When Lone (Pool.Step (daemon crate))) (idle s₀) acts d) :
    ∃ xs s, Run (Handles crate) s₀ xs s ∧ Stage s d ∧ Queue d xs := by
  have hstage : Stage s₀ (idle s₀) := .settled rfl fun t ht => absurd ht (not_mem_idle s₀ t)
  have hqueue : Queue (idle s₀) [] := .inl rfl
  exact lone_sequential_from .nil hstage hqueue hrun

/-! ## Running a schedule -/

instance : DecidablePred Pc.Reading
  | .statusKey _ | .loadSealed _ | .loadOpened _ | .loadErrors _ | .sealing _ | .opening _ =>
    isTrue trivial
  | .received | .storeProvider _ | .storeAlgo _ | .storeKey _ | .done _ | .aborted _ => isFalse id

instance : DecidablePred Pc.Loading
  | .loadOpened _ | .loadErrors _ => isTrue trivial
  | .received | .storeProvider _ | .storeAlgo _ | .storeKey _ | .statusKey _ | .loadSealed _
  | .sealing _ | .opening _ | .done _ | .aborted _ => isFalse id

namespace Kat

end Kat

end Cryptod

end SmartSfp
