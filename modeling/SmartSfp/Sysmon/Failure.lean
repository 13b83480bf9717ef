import SmartSfp.Sysmon.Calls

/-!
# Failure — what a failed `Snapshot` does to the baselines

`readCPU` stores its samples as soon as it has read them, and a source read later may fail.  Such a
call moves the CPU baselines, unless it read the very counters that are kept; a call that cannot
read `/proc/stat` moves nothing.
-/

namespace SmartSfp.Sysmon

open Lib Text

/-- If the call fails, the reader is as before. -/
def Reader.KeepsOnError (r : Reader) (k : Kernel) : Prop :=
  ∀ e, (r.snapshot k).1 = .error e → (r.snapshot k).2 = r

/-- Nothing behind `/proc/stat` fails, or the counters read there are the ones kept. -/
def Reader.Harmless (r : Reader) (k : Kernel) : Prop :=
  k.Readable ∨ ∀ overall perCore, readStat k.files = .ok (overall, perCore) →
    r.prevCPU = some overall ∧ ∀ (i : Nat) (st : CPUStat), perCore[i]? = some st →
      r.prevCPUs i = some st

/-- All that a call needs can be read. -/
def Kernel.complete (k : Kernel) : Bool :=
  (readStat k.files).isOk && (readMemory k.files).isOk && (parseProcNetDev k.files).isOk

variable {r r' : Reader} {k : Kernel}

/-- Storing the counters of the CPU changes nothing only if they are kept already. -/
theorem storeCPU_eq_self_iff (r : Reader) (overall : CPUStat) (perCore : List CPUStat) :
    (r.storeCPU overall perCore).2 = r ↔ r.prevCPU = some overall ∧
      ∀ (i : Nat) (st : CPUStat), perCore[i]? = some st → r.prevCPUs i = some st := by
  constructor
  · intro h
    refine ⟨(congrArg Reader.prevCPU h).symm, fun i st hi => ?_⟩
    have hcpus := congrFun (congrArg Reader.prevCPUs h) i
    change (readCores perCore r.prevCPUs).2 i = r.prevCPUs i at hcpus
    rw [← hcpus, readCores_kept, hi, Option.some_or]
  · intro ⟨hoverall, hcores⟩
    have hcpus : (readCores perCore r.prevCPUs).2 = r.prevCPUs := by
      funext i
      rw [readCores_kept]
      cases hi : perCore[i]? with
      | none => rw [Option.none_or]
      | some st => rw [Option.some_or, hcores i st hi]
    simp only [Reader.storeCPU]
    rw [hcpus, ← hoverall]

theorem calls_snapshot (r : Reader) (k : Kernel) :
    r.Calls ⟨k, (r.snapshot k).1⟩ (r.snapshot k).2 := rfl

/-- A failed call leaves the reader alone exactly when it is harmless. -/
theorem keepsOnError_iff (r : Reader) (k : Kernel) : r.KeepsOnError k ↔ r.Harmless k := by
  cases (calls_snapshot r k).cases with
  | unread hstat hresult hafter =>
    -- nothing was stored yet, and there are no counters to compare
    refine iff_of_true (fun _ _ => hafter) (.inr fun overall perCore hok => ?_)
    rw [hstat] at hok
    cases hok
  | @broken overall perCore hstat hbroken hresult hafter =>
    have hiff := storeCPU_eq_self_iff r overall perCore
    constructor
    · intro hkeeps
      obtain ⟨e, he⟩ : ∃ e, (r.snapshot k).1 = .error e := by
        cases hsnap : (r.snapshot k).1 with
        | ok snap =>
          rw [hsnap] at hresult
          cases hresult
        | error e => exact ⟨e, rfl⟩
      refine .inr fun overall' perCore' hok => ?_
      rw [hstat] at hok
      cases hok
      exact hiff.mp (hafter ▸ hkeeps e he)
    · -- the call stores the counters it has found, so these have to be the ones kept
      intro hharmless e _
      rw [hafter]
      exact hiff.mpr (hharmless.resolve_left hbroken overall perCore hstat)
  | done hstat hreadable hnet hresult =>
    have hok : (r.snapshot k).1 = .ok _ := hresult
    refine iff_of_true (fun e he => ?_) (.inl hreadable)
    rw [hok] at he
    cases he

/-- A call that is not complete fails. -/
theorem snapshot_of_incomplete (h : k.complete = false) : ∃ e, (r.snapshot k).1 = .error e := by
  cases hsnap : (r.snapshot k).1 with
  | error e => exact ⟨e, rfl⟩
  | ok snap =>
    cases (calls_snapshot r k).cases with
    | unread hstat hresult =>
      rw [hsnap] at hresult
      cases hresult
    | broken hstat hbroken hresult =>
      rw [hsnap] at hresult
      cases hresult
    | done hstat hreadable =>
      rw [Kernel.complete, hstat, hreadable.1, hreadable.2] at h
      cases h

/-- The reader after one more call. -/
def Reader.Polled (r : Reader) (k : Kernel) (r' : Reader) : Prop := r' = (r.snapshot k).2

/-- A run whose failed calls are harmless leaves the reader that its complete calls alone leave. -/
theorem run_of_harmless {ks : List Kernel} (h : Run (When Reader.Harmless Reader.Polled) r ks r') :
    Run Reader.Polled r (ks.filter Kernel.complete) r' := by
  induction h with
  | nil => exact .nil
  | @snoc ks t u k _ hlast ih =>
    obtain ⟨hharmless, rfl⟩ := hlast
    rw [List.filter_append]
    cases hcomplete : k.complete with
    | true =>
      rw [List.filter_cons_of_pos hcomplete]
      exact ih.snoc rfl
    | false =>
      -- the call fails, and being harmless it leaves the reader of the shorter run
      obtain ⟨e, he⟩ := snapshot_of_incomplete (r := t) hcomplete
      rw [List.filter_cons_of_neg (by rw [hcomplete]; decide), List.filter_nil, List.append_nil,
        (keepsOnError_iff t k).mpr hharmless e he]
      exact ih

/-- A failed call leaves the baselines alone exactly when it is harmless; and when every failed call
of the run to a reader was, it has the baselines of the successful calls alone. -/
theorem failed_snapshot_keeps_iff (r : Reader) (k : Kernel) :
    (r.KeepsOnError k ↔ r.Harmless k) ∧
      ∀ ks, Run (When Reader.Harmless Reader.Polled) .new ks r →
        Run Reader.Polled .new (ks.filter Kernel.complete) r :=
  ⟨keepsOnError_iff r k, fun _ h => run_of_harmless h⟩

/-- Nothing can be read: the call fails before it stores anything. -/
theorem failed_snapshot_keeps_iff_unreadable :
    Reader.new.KeepsOnError (.ofContents 0 []) ∧ Run Reader.Polled .new [] .new := by
  have hharmless : Reader.new.Harmless (.ofContents 0 []) := by
    refine .inr fun overall perCore hstat => ?_
    cases hstat
  have hcomplete : ([.ofContents 0 []] : List Kernel).filter Kernel.complete = [] := by
    decide +kernel
  obtain ⟨hiff, hrun⟩ := failed_snapshot_keeps_iff .new (.ofContents 0 [])
  have hkeeps := hiff.mpr hharmless
  have hpolled := hrun [.ofContents 0 []]
    (.single ⟨hharmless, (hkeeps "cpu: open /proc/stat: no such file or directory" rfl).symm⟩)
  rw [hcomplete] at hpolled
  exact ⟨hkeeps, hpolled⟩

/-- `/proc/meminfo` cannot be read: the call fails and the first CPU sample is kept. -/
theorem failed_snapshot_moves_baseline :
    (Reader.new.snapshot (.ofContents 0 [("/proc/stat", "cpu 1 2 3 4 5 6 7 8\n")])).1 =
      .error "memory: open /proc/meminfo: no such file or directory" ∧
    (Reader.new.snapshot (.ofContents 0 [("/proc/stat", "cpu 1 2 3 4 5 6 7 8\n")])).2.prevCPU =
      some ⟨1, 2, 3, 4, 5, 6, 7, 8⟩ ∧
    ¬Reader.new.KeepsOnError (.ofContents 0 [("/proc/stat", "cpu 1 2 3 4 5 6 7 8\n")]) := by
  have hstored : (Reader.new.snapshot
      (.ofContents 0 [("/proc/stat", "cpu 1 2 3 4 5 6 7 8\n")])).2.prevCPU =
        some ⟨1, 2, 3, 4, 5, 6, 7, 8⟩ := by decide +kernel
  have hfails : (Reader.new.snapshot
      (.ofContents 0 [("/proc/stat", "cpu 1 2 3 4 5 6 7 8\n")])).1 =
        .error "memory: open /proc/meminfo: no such file or directory" := by decide +kernel
  refine ⟨hfails, hstored, fun hkeeps => ?_⟩
  rw [hkeeps _ hfails] at hstored
  cases hstored

end SmartSfp.Sysmon
