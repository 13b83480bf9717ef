import SmartSfp.Cryptod.Interleave
import SmartSfp.Cryptod.Sequential

/-!
# Counters — what `packets_sealed`, `packets_opened` and `crypto_errors` count

A handler counts in the step in which it answers, so each counter is the number of the tasks that
have been given one kind of answer, at any time and whatever else is in flight.  `GetStatus` loads
each counter at some moment between its start and its answer.
-/

namespace SmartSfp

namespace Cryptod

open Lib Exec Ipc

/-- The task was answered with a frame. -/
def Task.sealed (t : Task) : Bool :=
  match t.pc with
  | .done (.ciphertext _) => true
  | _ => false

/-- The task was answered with a plaintext. -/
def Task.opened (t : Task) : Bool :=
  match t.pc with
  | .done (.plaintext _) => true
  | _ => false

/-- The task was answered with an error that `crypto_errors` counts. -/
def Task.counted (t : Task) : Bool :=
  match t.request, t.pc with
  | .encrypt _, .done (.error code _) => code == 500
  | .decrypt _, .done (.error code _) => code == 401 || code == 422
  | _, _ => false

/-- The report a `GetStatus` is filling in, or has answered with. -/
def Pc.report : Pc → Option StatusReport
  | .loadSealed r => some r
  | .loadOpened r => some r
  | .loadErrors r => some r
  | .done (.status r) => some r
  | _ => none

/-- What the task counts for, and with it every step that changes the counter. -/
def Counted (value : CryptodState → UInt64) (counts : Task → Bool) : Prop :=
  ∀ {crate : Gcm.Crate} {i : Nat} {sh sh' : Shared} {t t' : Task}, Move crate i sh t sh' t' →
    counts t = false ∧ value sh'.state = value sh.state + if counts t' then 1 else 0

/-- Every step of a `GetStatus` keeps the field or loads the counter into it. -/
def Loaded (value : CryptodState → UInt64) (field : StatusReport → UInt64) : Prop :=
  ∀ {i : Nat} {sh sh' : Shared} {pc pc' : Pc} {r : StatusReport}, StatusMove i sh pc sh' pc' →
    pc'.report = some r →
      field r = value sh.state ∨ ∃ r', pc.report = some r' ∧ field r = field r'

/-- A counter of the daemon: where it is kept, where it is reported, and which tasks it counts. -/
structure Counter where
  value : CryptodState → UInt64
  field : StatusReport → UInt64
  counts : Task → Bool
  counts_received : ∀ request, counts ⟨request, .received⟩ = false
  counted : Counted value counts
  loaded : Loaded value field

/-! ## The three counters -/

theorem counted_sealed : Counted CryptodState.packetsSealed Task.sealed := by
  intro crate i sh sh' t t' h
  cases h with
  | sealed hn hseal => exact ⟨rfl, rfl⟩
  | status hmove =>
    rw [hmove.state_eq]
    cases hmove <;> exact ⟨rfl, (UInt64.add_zero _).symm⟩
  | _ => exact ⟨rfl, (UInt64.add_zero _).symm⟩

theorem counted_opened : Counted CryptodState.packetsOpened Task.opened := by
  intro crate i sh sh' t t' h
  cases h with
  | opened hopen => exact ⟨rfl, rfl⟩
  | status hmove =>
    rw [hmove.state_eq]
    cases hmove <;> exact ⟨rfl, (UInt64.add_zero _).symm⟩
  | _ => exact ⟨rfl, (UInt64.add_zero _).symm⟩

theorem counted_errors : Counted CryptodState.cryptoErrors Task.counted := by
  intro crate i sh sh' t t' h
  cases h with
  | sealFailed hn hseal => exact ⟨rfl, rfl⟩
  | @openFailed p key e message hopen =>
    have hcode : (openCode e == 401 || openCode e == 422) = true := by
      unfold openCode
      split <;> rfl
    refine ⟨rfl, ?_⟩
    simp only [Task.counted, hcode, if_true]
    rfl
  | status hmove =>
    rw [hmove.state_eq]
    exact ⟨rfl, (UInt64.add_zero _).symm⟩
  | _ => exact ⟨rfl, (UInt64.add_zero _).symm⟩

/-- A report is made with the counters of the moment the key is read; each later load overwrites
one of them. -/
theorem StatusMove.report_cases {i : Nat} {sh sh' : Shared} {pc pc' : Pc} {r : StatusReport}
    (h : StatusMove i sh pc sh' pc') (hr : pc'.report = some r) :
    (∃ algo elapsed, pc = .statusKey algo ∧ r = Cryptod.report elapsed algo sh.state) ∨
    ∃ r', pc.report = some r' ∧ (r = { r' with packetsSealed := sh.state.packetsSealed } ∨
      r = { r' with packetsOpened := sh.state.packetsOpened } ∨
      r = { r' with cryptoErrors := sh.state.cryptoErrors }) := by
  cases h with
  | readAlgo => cases hr
  | readKey hguard =>
    cases hr
    exact .inl ⟨_, _, rfl, rfl⟩
  | readSealed =>
    cases hr
    exact .inr ⟨_, rfl, .inl rfl⟩
  | readOpened =>
    cases hr
    exact .inr ⟨_, rfl, .inr (.inl rfl)⟩
  | answer =>
    cases hr
    exact .inr ⟨_, rfl, .inr (.inr rfl)⟩

theorem loaded_sealed : Loaded CryptodState.packetsSealed StatusReport.packetsSealed := by
  intro i sh sh' pc pc' r h hr
  obtain ⟨algo, elapsed, -, rfl⟩ | ⟨r', hr', rfl | rfl | rfl⟩ := h.report_cases hr
  · exact .inl rfl
  · exact .inl rfl
  · exact .inr ⟨r', hr', rfl⟩
  · exact .inr ⟨r', hr', rfl⟩

theorem loaded_opened : Loaded CryptodState.packetsOpened StatusReport.packetsOpened := by
  intro i sh sh' pc pc' r h hr
  obtain ⟨algo, elapsed, -, rfl⟩ | ⟨r', hr', rfl | rfl | rfl⟩ := h.report_cases hr
  · exact .inl rfl
  · exact .inr ⟨r', hr', rfl⟩
  · exact .inl rfl
  · exact .inr ⟨r', hr', rfl⟩

theorem loaded_errors : Loaded CryptodState.cryptoErrors StatusReport.cryptoErrors := by
  intro i sh sh' pc pc' r h hr
  obtain ⟨algo, elapsed, -, rfl⟩ | ⟨r', hr', rfl | rfl | rfl⟩ := h.report_cases hr
  · exact .inl rfl
  · exact .inr ⟨r', hr', rfl⟩
  · exact .inr ⟨r', hr', rfl⟩
  · exact .inl rfl

namespace Counter

def sealed : Counter where
  value := CryptodState.packetsSealed
  field := StatusReport.packetsSealed
  counts := Task.sealed
  counts_received _ := rfl
  counted := counted_sealed
  loaded := loaded_sealed

def opened : Counter where
  value := CryptodState.packetsOpened
  field := StatusReport.packetsOpened
  counts := Task.opened
  counts_received _ := rfl
  counted := counted_opened
  loaded := loaded_opened

def errors : Counter where
  value := CryptodState.cryptoErrors
  field := StatusReport.cryptoErrors
  counts := Task.counted
  counts_received request := by cases request <;> rfl
  counted := counted_errors
  loaded := loaded_errors

variable (c : Counter) {crate : Gcm.Crate} {s : CryptodState} {d d' : Daemon}
  {a : Pool.Act Request UInt64} {n : UInt64}

/-- How many tasks the counter counts. -/
def total (d : Daemon) : Nat := d.tasks.countP c.counts

theorem total_spawn (d : Daemon) (req : Request) :
    c.total ⟨d.shared, d.tasks ++ [⟨req, .received⟩]⟩ = c.total d := by
  simp only [total, List.countP_append, List.countP_singleton, c.counts_received,
    Bool.false_eq_true, if_false, Nat.add_zero]

theorem total_run {i : Nat} {sh' : Shared} {t t' : Task} (ht : d.tasks[i]? = some t)
    (hmove : Move crate i d.shared t sh' t') :
    c.total ⟨sh', d.tasks.set i t'⟩ = c.total d + if c.counts t' then 1 else 0 := by
  have hcount := Pool.countP_set c.counts t' ht
  rw [(c.counted hmove).1] at hcount
  exact hcount

theorem total_step (hstep : Pool.Step (daemon crate) d a d') : c.total d ≤ c.total d' := by
  obtain ⟨req, rfl, rfl⟩ | ⟨i, elapsed, t, sh', t', rfl, ht, hmove, rfl⟩ := daemon_cases hstep
  · exact Nat.le_of_eq (c.total_spawn d req).symm
  · rw [c.total_run ht hmove]
    exact Nat.le_add_right _ _

/-- The counter is the number of the tasks it counts. -/
theorem value_step (h : c.value d.shared.state = n + UInt64.ofNat (c.total d))
    (hstep : Pool.Step (daemon crate) d a d') :
    c.value d'.shared.state = n + UInt64.ofNat (c.total d') := by
  obtain ⟨req, rfl, rfl⟩ | ⟨i, elapsed, t, sh', t', rfl, ht, hmove, rfl⟩ := daemon_cases hstep
  · rw [c.total_spawn d req]
    exact h
  · rw [c.total_run ht hmove]
    change c.value sh'.state = _
    rw [(c.counted hmove).2, h]
    split
    · rw [UInt64.add_assoc, UInt64.ofNat_add]
      rfl
    · rw [UInt64.add_zero, Nat.add_zero]

theorem run_value {acts : List (Pool.Act Request UInt64)}
    (hrun : Run (Pool.Step (daemon crate)) (idle s) acts d) :
    c.value d.shared.state = c.value s + UInt64.ofNat (c.total d) := by
  induction hrun with
  | nil => exact (UInt64.add_zero _).symm
  | snoc _ hlast ih => exact c.value_step ih hlast

/-! ## What a report holds -/

theorem report_of_move {i : Nat} {sh sh' : Shared} {t t' : Task} {r : StatusReport}
    (hmove : Move crate i sh t sh' t') (hr : t'.pc.report = some r) :
    c.field r = c.value sh.state ∨ ∃ r', t.pc.report = some r' ∧ c.field r = c.field r' := by
  cases hmove with
  | status hmove => exact c.loaded hmove hr
  | _ => cases hr

/-- Tasks started after the first `k` report a value the counter has had since it was `base`. -/
def Reports (n : UInt64) (k base : Nat) (d : Daemon) : Prop :=
  base ≤ c.total d ∧ ∀ j t r, k ≤ j → d.tasks[j]? = some t → t.pc.report = some r →
    ∃ m, base ≤ m ∧ m ≤ c.total d ∧ c.field r = n + UInt64.ofNat m

theorem reports_step {k base : Nat} (h : c.Reports n k base d)
    (hvalue : c.value d.shared.state = n + UInt64.ofNat (c.total d))
    (hstep : Pool.Step (daemon crate) d a d') : c.Reports n k base d' := by
  have hmono := c.total_step hstep
  refine ⟨Nat.le_trans h.1 hmono, fun j u r hj hu hr => ?_⟩
  have hold (r' : StatusReport) (u' : Task) (hu' : d.tasks[j]? = some u')
      (hr' : u'.pc.report = some r') :
      ∃ m, base ≤ m ∧ m ≤ c.total d' ∧ c.field r' = n + UInt64.ofNat m := by
    obtain ⟨m, hbase, hm, hfield⟩ := h.2 j u' r' hj hu' hr'
    exact ⟨m, hbase, Nat.le_trans hm hmono, hfield⟩
  obtain ⟨req, rfl, rfl⟩ | ⟨i, elapsed, t, sh', t', rfl, ht, hmove, rfl⟩ := daemon_cases hstep
  · rw [List.getElem?_append] at hu
    split at hu
    · exact hold r u hu hr
    · rw [List.mem_singleton.mp (List.mem_of_getElem? hu)] at hr
      cases hr
  · rw [Pool.getElem?_set ht] at hu
    split at hu
    · rename_i hji
      subst hji
      cases hu
      obtain hnow | ⟨r', hr', hfield⟩ := c.report_of_move hmove hr
      · exact ⟨c.total d, h.1, hmono, hnow.trans hvalue⟩
      · rw [hfield]
        exact hold r' t ht hr'
    · exact hold r u hu hr

theorem reports_run {k base : Nat} {acts : List (Pool.Act Request UInt64)}
    (h : c.Reports n k base d) (hvalue : c.value d.shared.state = n + UInt64.ofNat (c.total d))
    (hrun : Run (Pool.Step (daemon crate)) d acts d') : c.Reports n k base d' := by
  suffices h' : c.value d'.shared.state = n + UInt64.ofNat (c.total d') ∧ c.Reports n k base d'
    from h'.2
  induction hrun with
  | nil => exact ⟨hvalue, h⟩
  | snoc _ hlast ih => exact ⟨c.value_step ih.1 hlast, c.reports_step ih.2 ih.1 hlast⟩

/-- A `GetStatus` started after another was answered reports no smaller counter, as long as the
counter has not wrapped. -/
theorem field_le {acts acts' : List (Pool.Act Request UInt64)} {i j : Nat} {t u : Task}
    {r r' : StatusReport} (hzero : c.value s = 0)
    (hrun : Run (Pool.Step (daemon crate)) (idle s) acts d)
    (hrun' : Run (Pool.Step (daemon crate)) d acts' d') (ht : d.tasks[i]? = some t)
    (hr : t.pc.report = some r) (hj : d.tasks.length ≤ j) (hu : d'.tasks[j]? = some u)
    (hr' : u.pc.report = some r') (hwrap : c.total d' < UInt64.size) :
    c.field r ≤ c.field r' := by
  have hvalue := c.run_value hrun
  rw [hzero] at hvalue
  -- the first report is a count from before `d`, the second one from after
  have hfirst : c.Reports 0 0 0 d := by
    refine c.reports_run ⟨Nat.zero_le _, fun j t r _ ht => ?_⟩ ?_ hrun
    · cases ht
    · rw [show (idle s).shared.state = s from rfl, hzero]
      rfl
  have hsecond : c.Reports 0 d.tasks.length (c.total d) d' := by
    refine c.reports_run ⟨Nat.le_refl _, fun j t r hj ht => ?_⟩ hvalue hrun'
    exact absurd (List.getElem?_eq_some_iff.mp ht).1 (Nat.not_lt.mpr hj)
  obtain ⟨m, -, hm, hfield⟩ := hfirst.2 i t r (Nat.zero_le i) ht hr
  obtain ⟨m', hbase, hm', hfield'⟩ := hsecond.2 j u r' hj hu hr'
  rw [hfield, hfield', UInt64.zero_add, UInt64.zero_add, UInt64.le_iff_toNat_le,
    UInt64.toNat_ofNat_of_lt' (by omega), UInt64.toNat_ofNat_of_lt' (by omega)]
  omega

/-- A step that gives no answer of its kind leaves a counter alone. -/
theorem value_eq_of_step {i : Nat} {elapsed : UInt64} {sh sh' : Shared} {t t' : Task}
    (hstep : taskStep crate i elapsed sh t = some (sh', t')) (hnot : c.counts t' = false) :
    c.value sh'.state = c.value sh.state := by
  rw [(c.counted (move_of_step hstep)).2, hnot]
  exact UInt64.add_zero _

end Counter

/-- In every state of every run from the start of the daemon, `packets_sealed` is the number of
`Ciphertext` answers, `packets_opened` the number of `Plaintext` answers and `crypto_errors` the
number of encryptions answered 500 and decryptions answered 401 or 422, each modulo 2^64; a step
that gives no such answer changes no counter; and a `GetStatus` received after another was answered
reports no smaller counter, as long as it has not wrapped. -/
theorem counter_accounting (crate : Gcm.Crate) (s₀ : CryptodState)
    (hnew : CryptodState.new = .ok s₀) (acts : List (Pool.Act Request UInt64)) (d : Daemon)
    (hrun : Run (Pool.Step (daemon crate)) (idle s₀) acts d) :
    (d.shared.state.packetsSealed = UInt64.ofNat (d.tasks.countP Task.sealed) ∧
      d.shared.state.packetsOpened = UInt64.ofNat (d.tasks.countP Task.opened) ∧
      d.shared.state.cryptoErrors = UInt64.ofNat (d.tasks.countP Task.counted)) ∧
    (∀ (i : Nat) elapsed t sh' t', d.tasks[i]? = some t →
      taskStep crate i elapsed d.shared t = some (sh', t') →
      (t'.sealed = false → sh'.state.packetsSealed = d.shared.state.packetsSealed) ∧
      (t'.opened = false → sh'.state.packetsOpened = d.shared.state.packetsOpened) ∧
      (t'.counted = false → sh'.state.cryptoErrors = d.shared.state.cryptoErrors)) ∧
    ∀ acts' d', Run (Pool.Step (daemon crate)) d acts' d' →
      ∀ (i j : Nat) (r r' : StatusReport),
      d.tasks[i]? = some ⟨.getStatus, .done (.status r)⟩ → d.tasks.length ≤ j →
      d'.tasks[j]? = some ⟨.getStatus, .done (.status r')⟩ →
      (d'.tasks.countP Task.sealed < UInt64.size → r.packetsSealed ≤ r'.packetsSealed) ∧
      (d'.tasks.countP Task.opened < UInt64.size → r.packetsOpened ≤ r'.packetsOpened) ∧
      (d'.tasks.countP Task.counted < UInt64.size → r.cryptoErrors ≤ r'.cryptoErrors) := by
  have hzero : s₀.packetsSealed = 0 ∧ s₀.packetsOpened = 0 ∧ s₀.cryptoErrors = 0 := by
    cases hnew
    exact ⟨rfl, rfl, rfl⟩
  have hvalue (c : Counter) (hc : c.value s₀ = 0) :
      c.value d.shared.state = UInt64.ofNat (c.total d) := by
    rw [c.run_value hrun, hc, UInt64.zero_add]
  refine ⟨⟨hvalue .sealed hzero.1, hvalue .opened hzero.2.1, hvalue .errors hzero.2.2⟩, ?_, ?_⟩
  · intro i elapsed t sh' t' _ hstep
    exact ⟨Counter.sealed.value_eq_of_step hstep, Counter.opened.value_eq_of_step hstep,
      Counter.errors.value_eq_of_step hstep⟩
  · intro acts' d' hrun' i j r r' hi hj hj'
    have hle (c : Counter) (hc : c.value s₀ = 0) (hwrap : c.total d' < UInt64.size) :
        c.field r ≤ c.field r' :=
      c.field_le (t := ⟨.getStatus, .done (.status r)⟩) (u := ⟨.getStatus, .done (.status r')⟩)
        hc hrun hrun' hi rfl hj hj' rfl hwrap
    exact ⟨hle .sealed hzero.1, hle .opened hzero.2.1, hle .errors hzero.2.2⟩

namespace Kat

/-- A rotation, and a `GetStatus` after it. -/
def firstStatusActs : List (Pool.Act Request UInt64) :=
  [.spawn (.rotateKey rotate256), .run 0 0, .run 0 0, .run 0 0, .run 0 0, .spawn .getStatus] ++
    List.replicate 5 (.run 1 0)

/-- An encryption seals after a second `GetStatus` has taken the key's lock. -/
def secondStatusActs : List (Pool.Act Request UInt64) :=
  [.spawn (.encrypt encryptText), .run 2 0, .spawn .getStatus, .run 3 0, .run 3 0, .run 2 0,
    .run 3 0, .run 3 0, .run 3 0]

def firstStatus : Daemon where
  shared := ⟨rotated, none⟩
  tasks := [⟨.rotateKey rotate256, .done .ok⟩,
    ⟨.getStatus, .done (.status (report 0 .aes256Gcm rotated))⟩]

def secondStatus : Daemon where
  shared := ⟨rotated.countSealed, none⟩
  tasks := [⟨.rotateKey rotate256, .done .ok⟩,
    ⟨.getStatus, .done (.status (report 0 .aes256Gcm rotated))⟩,
    ⟨.encrypt encryptText, .done (.ciphertext Gcm.Kat.frame256)⟩,
    ⟨.getStatus, .done (.status (report 0 .aes256Gcm rotated.countSealed))⟩]

theorem firstStatus_run :
    Run (Pool.Step (daemon Gcm.kat)) (idle fresh) firstStatusActs firstStatus :=
  Pool.run_of_exec (by rfl)

theorem secondStatus_run :
    Run (Pool.Step (daemon Gcm.kat)) firstStatus secondStatusActs secondStatus :=
  Pool.run_of_exec (by rfl)

end Kat

theorem counter_accounting_kat :
    (report 0 .aes256Gcm Kat.rotated).packetsSealed ≤
      (report 0 .aes256Gcm Kat.rotated.countSealed).packetsSealed := by
  obtain ⟨-, -, hmono⟩ := counter_accounting Gcm.kat Kat.fresh rfl Kat.firstStatusActs
    Kat.firstStatus Kat.firstStatus_run
  exact (hmono Kat.secondStatusActs Kat.secondStatus Kat.secondStatus_run 1 3 _ _ rfl (by decide)
    rfl).1 (by decide)

end Cryptod

end SmartSfp
