import SmartSfp.Httpapi.System
import SmartSfp.Metrics.Collector
import SmartSfp.Sysmon.Baselines

/-!
# Scrape — scrapes and polls of one reader

`/metrics` and `/api/v1/system` share the reader, and with it the samples that rates and percentages
are computed from.  A poll that stores a sample moves the start of the interval the next scrape
reports on.
-/

namespace SmartSfp.Metrics

open Lib Text Sysmon SystemCollector Httpapi

/-! ## What a scrape reports of an interval -/

/-- The descriptors whose values are computed from the samples kept. -/
def deltaDescs : List Desc := [cpuBusy, cpuPerCore, ifRxBpsNow, ifTxBpsNow, procCPUPct]

def deltas (metrics : List Metric) : List Metric :=
  metrics.filter fun m => deltaDescs.contains m.desc

theorem deltas_runningMetrics (p : ProcessInfo) :
    deltas (runningMetrics p) = deltas (runningMetrics p.withoutStart) := by
  unfold runningMetrics
  show deltas (if p.running then _ else _) = deltas (if p.running then _ else _)
  cases p.running with
  | false => rfl
  | true =>
    have hstart : procStartTime ∉ deltaDescs := by decide
    have huptime : procUptime ∉ deltaDescs := by decide
    simp [deltas, gauge, List.filter_cons, hstart, huptime, ProcessInfo.withoutStart]

theorem deltas_processMetrics (p : ProcessInfo) :
    deltas (processMetrics p) = deltas (processMetrics p.withoutStart) := by
  have hrunning := deltas_runningMetrics p
  unfold processMetrics deltas at *
  rw [List.filter_cons, List.filter_cons, List.filter_append, List.filter_append, hrunning]
  rfl

theorem deltas_append (l l' : List Metric) : deltas (l ++ l') = deltas l ++ deltas l' :=
  List.filter_append l l'

theorem deltas_processes (processes : List ProcessInfo) :
    deltas (processes.flatMap processMetrics) =
      deltas ((processes.map ProcessInfo.withoutStart).flatMap processMetrics) := by
  induction processes with
  | nil => rfl
  | cons p ps ih =>
    rw [List.map_cons, List.flatMap_cons, List.flatMap_cons, deltas_append, deltas_append, ih,
      deltas_processMetrics]

theorem deltas_metricsOf (snap : Snapshot) :
    deltas (metricsOf snap) = deltas (metricsOf snap.withoutStart) := by
  unfold metricsOf
  rw [deltas_append, deltas_processes, ← deltas_append]
  rfl

/-- Readers that are the same report the same intervals. -/
theorem collect_same {sys sys' : Reader} (h : sys.Same sys') (k : Kernel) :
    deltas (collect sys k).1 = deltas (collect sys' k).1 ∧
      (collect sys k).2.Same (collect sys' k).2 := by
  obtain ⟨hsnap, hafter⟩ := h.snapshot k
  unfold collect
  cases hs : sys.snapshot k with
  | mk result after =>
    cases hs' : sys'.snapshot k with
    | mk result' after' =>
      rw [hs, hs'] at hsnap hafter
      cases result with
      | error e =>
        cases result' with
        | error e' => exact ⟨rfl, hafter⟩
        | ok snap' => cases hsnap
      | ok snap =>
        cases result' with
        | error e' => cases hsnap
        | ok snap' =>
          have heq : snap.withoutStart = snap'.withoutStart := Except.ok.inj hsnap
          refine ⟨?_, hafter⟩
          show deltas (metricsOf snap) = deltas (metricsOf snap')
          rw [deltas_metricsOf, heq, ← deltas_metricsOf]

/-! ## Runs -/

/-- One use of the reader. -/
inductive Visit where
  | scrape (k : Kernel)
  | poll (method : String) (k : Kernel)

/-- The scrapes of a run. -/
def scrapes : List Visit → List Kernel
  | [] => []
  | .scrape k :: run => k :: scrapes run
  | .poll _ _ :: run => scrapes run

/-- The intervals the scrapes of a run report on. -/
def reports (sys : Reader) : List Visit → List (List Metric)
  | [] => []
  | .scrape k :: run => deltas (collect sys k).1 :: reports (collect sys k).2 run
  | .poll method k :: run => reports (handleSystem sys method k).2 run

/-- A poll that takes no snapshot, or one whose samples are kept already. -/
def QuietPoll (sys : Reader) (method : String) (k : Kernel) : Prop :=
  method ≠ "GET" ∨ sys.StoresNothing k

/-- Every poll of the run that a scrape follows is quiet in the state it finds. -/
def QuietRun (sys : Reader) : List Visit → Prop
  | [] => True
  | .scrape k :: run => QuietRun (collect sys k).2 run
  | .poll method k :: run =>
    (scrapes run = [] ∨ QuietPoll sys method k) ∧ QuietRun (handleSystem sys method k).2 run

/-- `handleSystem` leaves the reader as `Snapshot` does. -/
theorem handleSystem_reader {method : String} (hget : method = "GET") (sys : Reader) (k : Kernel) :
    (handleSystem sys method k).2 = (sys.snapshot k).2 := by
  unfold handleSystem
  rw [if_neg (by simpa using hget)]
  cases sys.snapshot k with
  | mk result after =>
    cases result with
    | error e => rfl
    | ok snap => rfl

theorem QuietPoll.same {sys : Reader} {method : String} {k : Kernel} (h : QuietPoll sys method k) :
    sys.Same (handleSystem sys method k).2 := by
  by_cases hget : method = "GET"
  · rw [handleSystem_reader hget]
    exact (h.resolve_left (not_not.mpr hget)).same
  · unfold handleSystem
    rw [if_pos hget]
    exact Reader.Same.refl sys

theorem reports_of_no_scrapes {run : List Visit} (h : scrapes run = []) (sys : Reader) :
    reports sys run = [] := by
  induction run generalizing sys with
  | nil => rfl
  | cons visit run ih =>
    cases visit with
    | scrape k => cases h
    | poll method k => exact ih h (handleSystem sys method k).2

/-- A run with quiet polls reports what its scrapes alone do. -/
theorem reports_eq_alone {run : List Visit} {sys alone : Reader} (h : alone.Same sys)
    (hquiet : QuietRun sys run) : reports sys run = reports alone ((scrapes run).map .scrape) := by
  induction run generalizing sys alone with
  | nil => rfl
  | cons visit run ih =>
    cases visit with
    | scrape k =>
      obtain ⟨hdeltas, hafter⟩ := collect_same h k
      simp only [reports, scrapes, List.map_cons]
      rw [hdeltas, ih hafter hquiet]
    | poll method k =>
      simp only [reports, scrapes]
      rcases hquiet.1 with hlast | hpoll
      · rw [reports_of_no_scrapes hlast, hlast]
        rfl
      · exact ih (h.trans hpoll.same) hquiet.2

/-- Runs that differ only in quiet polls report the same at every scrape. -/
theorem reports_undisturbed (sys : Reader) {run run' : List Visit}
    (hscrapes : scrapes run = scrapes run') (hquiet : QuietRun sys run)
    (hquiet' : QuietRun sys run') : reports sys run = reports sys run' := by
  rw [reports_eq_alone (Reader.Same.refl sys) hquiet,
    reports_eq_alone (Reader.Same.refl sys) hquiet', hscrapes]

/-- A module without network, sensors and processes that has spent these jiffies. -/
def jiffies (stat : String) : Kernel where
  now := 0
  files := Files.ofContents [
    ("/proc/stat", stat), ("/proc/meminfo", "MemTotal: 1010500 kB\n"), ("/proc/net/dev", "")]
  process _ := Files.ofContents []
  nowUnix _ := 0
  hwmon := []
  parseFloat _ := none

theorem reports_undisturbed_quiet :
    reports Reader.new [.scrape (jiffies "cpu 0 0 0 100"), .poll "POST" (jiffies "cpu 100 0 0 100"),
      .poll "GET" (jiffies "intr 0"), .scrape (jiffies "cpu 100 0 0 200")] =
    reports Reader.new [.scrape (jiffies "cpu 0 0 0 100"),
      .scrape (jiffies "cpu 100 0 0 200")] := by
  have hnone : (readStat (jiffies "intr 0").files).isOk = false := by decide +kernel
  have hunread : ∀ sys : Reader, sys.StoresNothing (jiffies "intr 0") := by
    intro sys overall perCore hstat
    rw [hstat] at hnone
    cases hnone
  exact reports_undisturbed Reader.new rfl
    ⟨.inr (.inl (by decide)), .inr (.inr (hunread _)), trivial⟩ trivial

/-- Between the scrapes the CPU was busy for half of the time; after a poll in the middle the second
scrape reports it idle. -/
theorem poll_disturbs :
    scrapes [.scrape (jiffies "cpu 0 0 0 100"), .poll "GET" (jiffies "cpu 100 0 0 100"),
        .scrape (jiffies "cpu 100 0 0 200")] =
      scrapes [.scrape (jiffies "cpu 0 0 0 100"), .scrape (jiffies "cpu 100 0 0 200")] ∧
    reports Reader.new [.scrape (jiffies "cpu 0 0 0 100"), .poll "GET" (jiffies "cpu 100 0 0 100"),
        .scrape (jiffies "cpu 100 0 0 200")] =
      [[gauge cpuBusy 0 []], [gauge cpuBusy 0 []]] ∧
    reports Reader.new [.scrape (jiffies "cpu 0 0 0 100"), .scrape (jiffies "cpu 100 0 0 200")] =
      [[gauge cpuBusy 0 []], [gauge cpuBusy 50 []]] :=
  ⟨rfl, by decide +kernel, by decide +kernel⟩

end SmartSfp.Metrics
