import SmartSfp.Sysmon.Incarnations

/-!
# StartTimes — the start time that is reported of a process

It is the boot time and what `/proc/[pid]/stat` tells.  The boot time is read once for all processes
and calls, so the clock of the module may be set without moving the start times.
-/

namespace SmartSfp.Sysmon

open Lib Text

/-- A lookup with what is reported of it. -/
abbrev Report := Lookup × ProcessInfo

/-- The reports of a call, in the order of its lookups. -/
def Call.reports (c : Call) : List Report :=
  match c.result with
  | .error _ => []
  | .ok snap => (watchedProcesses.zip snap.processes).filterMap fun x =>
      (c.kernel.lookup x.1).map fun found => (found, x.2)

namespace Report

/-- The start time of the report goes by this boot time. -/
def DatedBy (boot : Int64) (y : Report) : Prop :=
  y.2.startUnixS = boot + y.1.stat.starttime.toInt64 / clockTicks

instance (boot : Int64) (y : Report) : Decidable (y.DatedBy boot) :=
  inferInstanceAs (Decidable (_ = _))

end Report

/-- The first of the reports may have been dated without a boot time; the others go by one. -/
def Dated (boot : Int64) (ys : List Report) : Prop :=
  ∃ early late, ys = early ++ late ∧ (∀ y ∈ early, y.DatedBy 0) ∧ ∀ y ∈ late, y.DatedBy boot

/-- The start time of a process stays, unless it has been dated without a boot time. -/
def StartKept (y y' : Report) : Prop :=
  y.1.stat.starttime = y'.1.stat.starttime →
    y'.2.startUnixS = y.2.startUnixS ∨ y.DatedBy 0

/-! ## The boot time -/

section Boot

variable {r r' : Reader} {k : Kernel} {c : Call} {name : Text} {boot boot' : Int64} {y : Report}
  {ys : List Report}

/-- The time that is used is the time that is left behind. -/
theorem bootTimeUnix_used (cached : Int64) (f : Files) :
    (bootTimeUnix cached f).1 = (bootTimeUnix cached f).2 := by
  unfold bootTimeUnix
  by_cases hcached : cached = 0
  · rw [if_neg (not_not.mpr hcached)]
    cases f.readFile (utf8 "/proc/stat") with
    | error e => exact hcached.symm
    | ok content =>
      dsimp only
      cases btimeOf content with
      | none => exact hcached.symm
      | some n => rfl
  · rw [if_pos hcached]

theorem bootTimeUnix_cached {cached : Int64} (h : cached ≠ 0) (f : Files) :
    (bootTimeUnix cached f).2 = cached := by
  rw [bootTimeUnix, if_pos h]

theorem addBinary_startUnixS (f : Files) (pid : Int) (info : ProcessInfo) :
    (addBinary f pid info).startUnixS = info.startUnixS := by
  obtain ⟨_, _, _, _, heq⟩ := addBinary_eq f pid info
  rw [heq]

/-- What one lookup does to the boot time. -/
inductive Booted (r : Reader) (found : Option Lookup) (info : ProcessInfo) (r' : Reader) :
    Prop where
  | unfound (hfound : found = none) (hboot : r'.bootTimeCached = r.bootTimeCached)
  | looked {x : Lookup} (hfound : found = some x)
      (hdated : Report.DatedBy r'.bootTimeCached (x, info))
      (hkept : r.bootTimeCached ≠ 0 → r'.bootTimeCached = r.bootTimeCached)

theorem Reader.readOneProcess_booted (r : Reader) (k : Kernel) (name : Text) :
    Booted r (k.lookup name) (r.readOneProcess k name).1 (r.readOneProcess k name).2 := by
  unfold readOneProcess Kernel.lookup
  cases hpid : findPIDByComm (k.process name) name with
  | none => exact .unfound rfl rfl
  | some pid =>
    dsimp only [bind, Option.bind]
    unfold readProcStat
    cases hstat : parseProcPidStat (k.process name) pid with
    | none => exact .unfound rfl rfl
    | some st =>
      refine .looked rfl ?_ fun hcached => bootTimeUnix_cached hcached _
      rw [Report.DatedBy, addBinary_startUnixS]
      dsimp only
      rw [bootTimeUnix_used]

/-- Before a boot time is read all reports are dated without one, so it may be any. -/
theorem Dated.of_zero (h : Dated 0 ys) : Dated boot ys := by
  obtain ⟨early, late, rfl, hearly, hlate⟩ := h
  refine ⟨early ++ late, [], (List.append_nil _).symm, fun y hy => ?_, fun y hy => ?_⟩
  · rcases List.mem_append.mp hy with hy | hy
    · exact hearly y hy
    · exact hlate y hy
  · cases hy

theorem Dated.snoc (h : Dated boot ys) (hkept : boot ≠ 0 → boot' = boot) (hy : y.DatedBy boot') :
    Dated boot' (ys ++ [y]) := by
  have hold : Dated boot' ys := by
    by_cases hboot : boot = 0
    · rw [hboot] at h
      exact h.of_zero
    · rw [hkept hboot]
      exact h
  obtain ⟨early, late, rfl, hearly, hlate⟩ := hold
  refine ⟨early, late ++ [y], List.append_assoc _ _ _, hearly, fun z hz => ?_⟩
  rcases List.mem_append.mp hz with hz | hz
  · exact hlate z hz
  · rw [List.mem_singleton.mp hz]
    exact hy

/-- The reports of a call, added to those before it. -/
theorem Dated.readEach {names : List Text} (h : Dated r.bootTimeCached ys) :
    Dated (Reader.readEach k names r).2.bootTimeCached
      (ys ++ (names.zip (Reader.readEach k names r).1).filterMap fun x =>
        (k.lookup x.1).map fun found => (found, x.2)) := by
  induction names generalizing r ys with
  | nil =>
    rw [List.zip_nil_left, List.filterMap_nil, List.append_nil]
    exact h
  | cons first names ih =>
    simp only [Reader.readEach, List.zip_cons_cons]
    cases r.readOneProcess_booted k first with
    | unfound hfound hboot =>
      rw [List.filterMap_cons_none (by rw [hfound]; rfl)]
      refine ih ?_
      rw [hboot]
      exact h
    | @looked x hfound hdated hkept =>
      rw [List.filterMap_cons_some (by rw [hfound]; rfl), ← List.singleton_append,
        ← List.append_assoc]
      exact ih (h.snoc hkept hdated)

/-- Two reports that go by one boot time. -/
theorem startKept_of_datedBy {y' : Report} (hy : y.DatedBy boot) (hy' : y'.DatedBy boot) :
    StartKept y y' := by
  intro hsame
  left
  rw [hy', hy, hsame]

theorem Dated.pairwise (h : Dated boot ys) : ys.Pairwise StartKept := by
  obtain ⟨early, late, rfl, hearly, hlate⟩ := h
  refine List.pairwise_append.mpr ⟨?_, ?_, fun y hy y' _ _ => .inr (hearly y hy)⟩
  · exact List.pairwise_of_forall_mem_list fun y hy y' _ _ => .inr (hearly y hy)
  · exact List.pairwise_of_forall_mem_list fun y hy y' hy' =>
      startKept_of_datedBy (hlate y hy) (hlate y' hy')

end Boot

/-! ## Runs of calls -/

section Runs

variable {r r' : Reader} {c : Call} {cs : List Call} {s : Reader × List Report}

/-- The reader, and the history of its reports. -/
def Watching : Reader × List Report → Call → Reader × List Report → Prop :=
  Recorded (fun _ c => c.reports) Reader.Calls

/-- A call that fails reads no boot time; one that succeeds ends with its lookups. -/
theorem Reader.Calls.boot (h : r.Calls c r') :
    (c.result.isOk = false ∧ r'.bootTimeCached = r.bootTimeCached) ∨
    ∃ snap, ∃ r₀ : Reader, c.result = .ok snap ∧ r₀.bootTimeCached = r.bootTimeCached ∧
      snap.processes = (r₀.readProcesses c.kernel).1 ∧
      r'.bootTimeCached = (r₀.readProcesses c.kernel).2.bootTimeCached := by
  obtain ⟨k, result⟩ := c
  unfold Calls Reader.snapshot Reader.readCPU at h
  cases hstat : readStat k.files with
  | error e =>
    rw [hstat] at h
    cases h
    exact .inl ⟨rfl, rfl⟩
  | ok stat =>
    rw [hstat] at h
    dsimp only [bind, Except.bind, pure, Except.pure] at h
    cases hmemory : readMemory k.files with
    | error e =>
      rw [hmemory] at h
      cases h
      exact .inl ⟨rfl, rfl⟩
    | ok memory =>
      rw [hmemory] at h
      dsimp only [Reader.readNet] at h
      cases hnet : parseProcNetDev k.files with
      | error e =>
        rw [hnet] at h
        cases h
        exact .inl ⟨rfl, rfl⟩
      | ok stats =>
        rw [hnet] at h
        cases h
        exact .inr ⟨_, ((r.storeCPU stat.1 stat.2).2.storeNet k.files k.now stats).2, rfl, rfl, rfl,
          rfl⟩

theorem Dated.calls {ys : List Report} (h : Dated r.bootTimeCached ys) (hcalls : r.Calls c r') :
    Dated r'.bootTimeCached (ys ++ c.reports) := by
  unfold Call.reports
  rcases hcalls.boot with ⟨hfailed, hboot⟩ | ⟨snap, r₀, hok, hboot, hprocesses, hboot'⟩
  · cases hresult : c.result with
    | ok snap =>
      rw [hresult] at hfailed
      cases hfailed
    | error e =>
      dsimp only
      rw [List.append_nil, hboot]
      exact h
  · rw [hok, hboot']
    dsimp only
    rw [hprocesses]
    refine Dated.readEach ?_
    rw [hboot]
    exact h

/-- Every report of a run goes by the boot time that the reader has in the end, but for the first
ones, which have been made without a boot time. -/
theorem dated_of_run (h : Run Watching (.new, []) cs s) : Dated s.1.bootTimeCached s.2 := by
  induction h with
  | nil => exact ⟨[], [], rfl, List.forall_mem_nil _, List.forall_mem_nil _⟩
  | snoc _ hlast ih =>
    obtain ⟨hcalls, hreports⟩ := hlast
    rw [hreports]
    exact ih.calls hcalls

/-- Whatever `/proc/stat` says later, a process is reported with the start time it was reported
with, once it was reported with the boot time. -/
theorem start_time_kept (h : Run Watching (.new, []) cs s) :
    Dated s.1.bootTimeCached s.2 ∧ s.2.Pairwise StartKept := by
  have hdated := dated_of_run h
  exact ⟨hdated, hdated.pairwise⟩

end Runs

namespace Kat

/-- `acm-agent` on a module that says it was booted at this time. -/
def bootedAt (now : Int) (btime : String) : Kernel :=
  { agent now "10" "100" with
    process := fun name =>
      { (agent now "10" "100").process name with
        readFile := fun p =>
          if p = utf8 "/proc/stat" then .ok (utf8 ("btime " ++ btime ++ "\n"))
          else ((agent now "10" "100").process name).readFile p } }

def callOn (r : Reader) (k : Kernel) : Call := ⟨k, (r.snapshot k).1⟩

/-- The reader and its reports after a call. -/
def after (s : Reader × List Report) (k : Kernel) : Reader × List Report :=
  ((s.1.snapshot k).2, s.2 ++ (callOn s.1 k).reports)

theorem watching_after (s : Reader × List Report) (k : Kernel) :
    Watching s (callOn s.1 k) (after s k) :=
  ⟨rfl, rfl⟩

def once : Reader × List Report := after (.new, []) (bootedAt 0 "1000")

/-- The clock has been set 5 s forward between the calls. -/
def twice : Reader × List Report := after once (bootedAt 2000000000 "1005")

end Kat

theorem start_time_kept_set :
    Kat.twice.2.map (fun y => y.2.startUnixS) = [1001, 1001] ∧
      Dated Kat.twice.1.bootTimeCached Kat.twice.2 ∧ Kat.twice.2.Pairwise StartKept :=
  ⟨by decide +kernel,
    start_time_kept (.cons (Kat.watching_after (.new, []) (Kat.bootedAt 0 "1000"))
      (.single (Kat.watching_after Kat.once (Kat.bootedAt 2000000000 "1005"))))⟩

end SmartSfp.Sysmon
