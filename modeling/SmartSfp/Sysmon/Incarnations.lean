import Mathlib.Tactic.Linarith
import SmartSfp.Lib.Decimal
import SmartSfp.Lib.Word
import SmartSfp.Sysmon.Calls

/-!
# Incarnations — whose sample `prevProc` keeps under a PID

The sample of a process is kept under its PID, for ever, and without the start time that tells a
process from a later one with the same PID.  A history of the lookups knows both.
-/

namespace SmartSfp.Sysmon

open Lib Text

/-- What the lookup of a watched process finds in `/proc/[pid]/stat`. -/
structure Lookup where
  pid : Int
  stat : ProcStat
  takenAt : Int
  deriving DecidableEq

namespace Lookup

def jiffies (x : Lookup) : ℕ := x.stat.utime.toNat + x.stat.stime.toNat

/-- The sum as it is computed. -/
def cur (x : Lookup) : UInt64 := x.stat.utime + x.stat.stime

/-- What is kept of it. -/
def sample (x : Lookup) : ProcSample := ⟨x.takenAt, x.cur⟩

/-- Two lookups of one process. -/
def SameIncarnation (p x : Lookup) : Prop := p.pid = x.pid ∧ p.stat.starttime = x.stat.starttime

end Lookup

def Kernel.lookup (k : Kernel) (name : Text) : Option Lookup := do
  let pid ← findPIDByComm (k.process name) name
  let st ← parseProcPidStat (k.process name) pid
  return ⟨pid, st, k.now⟩

/-- The lookups of a call; one that fails does not get to the processes. -/
def Call.lookups (c : Call) : List Lookup :=
  if c.result.isOk then watchedProcesses.filterMap c.kernel.lookup else []

/-- The last lookup of a PID. -/
def lastOf (hs : List Lookup) (pid : Int) : Option Lookup := hs.reverse.find? fun x => x.pid = pid

/-- If the PID was looked up before, that was the same process and the sums fit 64 bits, or the
reader takes no rise from it: too little time has passed, or the counter is not above. -/
def Distinguished (hs : List Lookup) (x : Lookup) : Prop :=
  ∀ p, lastOf hs x.pid = some p →
    (p.stat.starttime = x.stat.starttime ∧ p.jiffies < UInt64.size ∧ x.jiffies < UInt64.size) ∨
      seconds (x.takenAt - p.takenAt) ≤ 1 / 20 ∨ x.cur ≤ p.cur

/-- One lookup after another. -/
def Settled : List Lookup → List Lookup → Prop
  | _, [] => True
  | hs, x :: xs => Distinguished hs x ∧ Settled (hs ++ [x]) xs

/-- A percentage is the rise between two lookups of one process, or 0; and it is 0 if the process
was not looked up before. -/
structure TrueCPU (hs : List Lookup) (x : Lookup) (pct : ℚ) : Prop where
  rise : pct ≠ 0 → ∃ p ∈ hs, p.SameIncarnation x ∧ p.takenAt < x.takenAt ∧ p.jiffies ≤ x.jiffies ∧
    pct = 100 * (x.jiffies - p.jiffies) / (clockTicks.toInt * seconds (x.takenAt - p.takenAt))
  first : (∀ p ∈ hs, ¬p.SameIncarnation x) → pct = 0

/-- What is reported of a process, also if it is not found. -/
def TrueInfo (hs : List Lookup) (found : Option Lookup) (pct : ℚ) : Prop :=
  match found with
  | none => pct = 0
  | some x => TrueCPU hs x pct

/-- The reader keeps the last sample of each PID. -/
def Reader.Knows (r : Reader) (hs : List Lookup) : Prop :=
  ∀ pid, r.prevProc (procKey pid) = (lastOf hs pid).map Lookup.sample

/-! ## One lookup -/

section Step

variable {r : Reader} {k : Kernel} {hs : List Lookup} {x p : Lookup} {name : Text}

theorem procKey_inj {m n : Int} (h : procKey m = procKey n) : m = n :=
  itoa_injective (List.append_cancel_left h)

theorem lastOf_snoc (hs : List Lookup) (x : Lookup) (pid : Int) :
    lastOf (hs ++ [x]) pid = if x.pid = pid then some x else lastOf hs pid := by
  unfold lastOf
  rw [List.reverse_append, List.reverse_singleton, List.singleton_append]
  by_cases hpid : x.pid = pid
  · rw [if_pos hpid, List.find?_cons_of_pos (by simpa using hpid)]
  · rw [if_neg hpid, List.find?_cons_of_neg (by simpa using hpid)]

theorem lastOf_eq_some {pid : Int} (h : lastOf hs pid = some p) : p ∈ hs ∧ p.pid = pid := by
  constructor
  · exact List.mem_reverse.mp (List.mem_of_find?_eq_some h)
  · simpa using List.find?_some h

theorem Lookup.toNat_cur (h : x.jiffies < UInt64.size) : x.cur.toNat = x.jiffies := by
  show (x.stat.utime + x.stat.stime).toNat = x.stat.utime.toNat + x.stat.stime.toNat
  rw [UInt64.toNat_add]
  exact Nat.mod_eq_of_lt h

/-- The rise of a counter is not negative, so `if info.CPUPct < 0` has nothing to do. -/
theorem procCPUPct_some (p : ProcSample) (now : Int) (cur : UInt64) :
    procCPUPct (some p) now cur =
      if p.takenAt < now ∧ 1 / 20 < seconds (now - p.takenAt) ∧ p.utimePlus ≤ cur then
        100 * (cur.toNat - p.utimePlus.toNat : ℚ) / (clockTicks.toInt * seconds (now - p.takenAt))
      else 0 := by
  unfold procCPUPct
  dsimp only
  by_cases hguard : p.takenAt < now ∧ 1 / 20 < seconds (now - p.takenAt) ∧ p.utimePlus ≤ cur
  · have hspaced := hguard.2.1
    have hrises := hguard.2.2
    have hticks : (0 : ℚ) ≤ clockTicks.toInt := by decide +kernel
    have hseconds : 0 ≤ seconds (now - p.takenAt) := by linarith
    have hnonneg : 0 ≤ ((cur - p.utimePlus).toNat : ℚ) * 100 /
        (seconds (now - p.takenAt) * clockTicks.toInt) :=
      div_nonneg (mul_nonneg (Nat.cast_nonneg _) (by norm_num)) (mul_nonneg hseconds hticks)
    rw [if_pos hguard, if_pos hguard, if_neg (not_lt.mpr hnonneg), cast_toNat_sub hrises,
      mul_comm (100 : ℚ), mul_comm (seconds _)]
  · rw [if_neg hguard, if_neg hguard]

/-- The percentage that is reported of a lookup. -/
def Lookup.pct (hs : List Lookup) (x : Lookup) : ℚ :=
  procCPUPct ((lastOf hs x.pid).map Lookup.sample) x.takenAt x.cur

/-- A percentage that is not 0 is computed against the last lookup of the PID. -/
theorem Lookup.exists_of_pct_ne_zero (h : x.pct hs ≠ 0) : ∃ p, lastOf hs x.pid = some p ∧
    p.takenAt < x.takenAt ∧ 1 / 20 < seconds (x.takenAt - p.takenAt) ∧ p.cur < x.cur ∧
    x.pct hs = 100 * (x.cur.toNat - p.cur.toNat : ℚ) /
      (clockTicks.toInt * seconds (x.takenAt - p.takenAt)) := by
  unfold pct at h ⊢
  cases hlast : lastOf hs x.pid with
  | none =>
    rw [hlast] at h
    exact absurd rfl h
  | some p =>
    rw [hlast, Option.map_some, procCPUPct_some] at h
    rw [Option.map_some, procCPUPct_some]
    by_cases hguard : p.sample.takenAt < x.takenAt ∧
        1 / 20 < seconds (x.takenAt - p.sample.takenAt) ∧ p.sample.utimePlus ≤ x.cur
    · rw [if_pos hguard] at h
      rw [if_pos hguard]
      obtain ⟨hbefore, hspaced, hle⟩ := hguard
      -- an equal counter is reported as 0
      refine ⟨p, rfl, hbefore, hspaced, UInt64.lt_of_le_of_ne hle fun heq => h ?_, rfl⟩
      rw [← heq]
      show 100 * (p.cur.toNat - p.cur.toNat : ℚ) / _ = 0
      rw [sub_self, mul_zero, zero_div]
    · rw [if_neg hguard] at h
      exact absurd rfl h

theorem Distinguished.trueCPU (h : Distinguished hs x) : TrueCPU hs x (x.pct hs) := by
  have hrise : x.pct hs ≠ 0 → ∃ p ∈ hs, p.SameIncarnation x ∧ p.takenAt < x.takenAt ∧
      p.jiffies ≤ x.jiffies ∧ x.pct hs =
        100 * (x.jiffies - p.jiffies) / (clockTicks.toInt * seconds (x.takenAt - p.takenAt)) := by
    intro hne
    obtain ⟨p, hlast, hbefore, hspaced, habove, hpct⟩ := x.exists_of_pct_ne_zero hne
    obtain ⟨hmem, hpid⟩ := lastOf_eq_some hlast
    rcases h p hlast with ⟨hstart, hp, hx⟩ | hshort | hnot
    · rw [Lookup.toNat_cur hx, Lookup.toNat_cur hp] at hpct
      have hle := (UInt64.lt_iff_toNat_lt.mp habove).le
      rw [Lookup.toNat_cur hx, Lookup.toNat_cur hp] at hle
      exact ⟨p, hmem, ⟨hpid, hstart⟩, hbefore, hle, hpct⟩
    · exact absurd hspaced (not_lt.mpr hshort)
    · exact absurd habove (UInt64.not_lt.mpr hnot)
  refine ⟨hrise, fun hfirst => ?_⟩
  by_contra hne
  obtain ⟨p, hp, hsame, -⟩ := hrise hne
  exact hfirst p hp hsame

/-- Of a process that was not looked up before, 0 is reported exactly if it is distinguished. -/
theorem distinguished_iff_of_new (hnew : ∀ p ∈ hs, ¬p.SameIncarnation x) :
    Distinguished hs x ↔ x.pct hs = 0 := by
  refine ⟨fun h => h.trueCPU.first hnew, fun hzero p hlast => .inr ?_⟩
  -- otherwise the guard lets a rise through that the counter of the other process makes up
  by_contra hnot
  obtain ⟨hspaced, habove⟩ := not_or.mp hnot
  rw [not_le] at hspaced
  rw [UInt64.not_le] at habove
  have hseconds : 0 < seconds (x.takenAt - p.takenAt) := by linarith
  have hbefore : p.takenAt < x.takenAt := by
    by_contra hle
    have hdur : ((x.takenAt - p.takenAt : Int) : ℚ) ≤ 0 :=
      Int.cast_nonpos.mpr (sub_nonpos.mpr (not_lt.mp hle))
    exact absurd hseconds (not_lt.mpr (div_nonpos_of_nonpos_of_nonneg hdur (by norm_num)))
  have hticks : (0 : ℚ) < clockTicks.toInt := by decide +kernel
  have hdelta : (0 : ℚ) < x.cur.toNat - p.cur.toNat :=
    sub_pos.mpr (Nat.cast_lt.mpr (UInt64.lt_iff_toNat_lt.mp habove))
  rw [Lookup.pct, hlast, Option.map_some, procCPUPct_some,
    if_pos ⟨hbefore, hspaced, UInt64.le_of_lt habove⟩] at hzero
  exact (div_pos (mul_pos (by norm_num) hdelta) (mul_pos hticks hseconds)).ne' hzero

/-- A lookup is reported against the last one of its PID and takes the place of that. -/
theorem Reader.readOneProcess_lookup (r : Reader) (k : Kernel) (name : Text) :
    match k.lookup name with
    | none => (r.readOneProcess k name).1.cpuPct = 0 ∧
        (r.readOneProcess k name).2.prevProc = r.prevProc
    | some x => (r.readOneProcess k name).1.cpuPct =
          procCPUPct (r.prevProc (procKey x.pid)) x.takenAt x.cur ∧
        (r.readOneProcess k name).2.prevProc =
          Function.update r.prevProc (procKey x.pid) (some x.sample) := by
  unfold readOneProcess Kernel.lookup
  cases hpid : findPIDByComm (k.process name) name with
  | none => exact ⟨rfl, rfl⟩
  | some pid =>
    dsimp only [bind, Option.bind]
    unfold readProcStat
    cases hstat : parseProcPidStat (k.process name) pid with
    | none => exact ⟨addBinary_cpuPct _ pid _, rfl⟩
    | some st => exact ⟨addBinary_cpuPct _ pid _, rfl⟩

/-- What one lookup does to the history. -/
theorem Reader.Knows.snoc {r' : Reader} (h : r.Knows hs)
    (hproc : r'.prevProc = Function.update r.prevProc (procKey x.pid) (some x.sample)) :
    r'.Knows (hs ++ [x]) := by
  intro pid
  rw [hproc, lastOf_snoc]
  by_cases hpid : x.pid = pid
  · rw [hpid, if_pos rfl, Function.update_self, Option.map_some]
  · rw [if_neg hpid, Function.update_of_ne fun heq => hpid (procKey_inj heq).symm, h pid]

theorem Reader.Knows.congr {r' : Reader} (h : r.Knows hs) (hproc : r'.prevProc = r.prevProc) :
    r'.Knows hs := by
  intro pid
  rw [hproc, h pid]

/-- The lookups of a call: each is reported truly, and the reader knows all of them in the end. -/
theorem Reader.Knows.readEach {names : List Text} (h : r.Knows hs)
    (hsettled : Settled hs (names.filterMap k.lookup)) :
    (readEach k names r).2.Knows (hs ++ names.filterMap k.lookup) ∧
      ∀ i info name, (readEach k names r).1[i]? = some info → names[i]? = some name →
        TrueInfo (hs ++ (names.take i).filterMap k.lookup) (k.lookup name) info.cpuPct := by
  induction names generalizing r hs with
  | nil =>
    rw [List.filterMap_nil, List.append_nil]
    refine ⟨h, fun i info name hinfo => ?_⟩
    cases hinfo
  | cons first names ih =>
    have hone := r.readOneProcess_lookup k first
    cases hfirst : k.lookup first with
    | none =>
      rw [hfirst] at hone
      rw [List.filterMap_cons_none hfirst] at hsettled ⊢
      obtain ⟨hknows, hinfos⟩ := ih (h.congr hone.2) hsettled
      refine ⟨hknows, fun i info name hinfo hname => ?_⟩
      cases i with
      | zero =>
        cases hinfo
        cases hname
        rw [hfirst]
        exact hone.1
      | succ i =>
        rw [List.take_succ_cons, List.filterMap_cons_none hfirst]
        exact hinfos i info name hinfo hname
    | some x =>
      rw [hfirst] at hone
      rw [List.filterMap_cons_some hfirst] at hsettled ⊢
      obtain ⟨hdist, hsettled⟩ := hsettled
      obtain ⟨hknows, hinfos⟩ := ih (h.snoc hone.2) hsettled
      rw [List.append_assoc] at hknows
      refine ⟨hknows, fun i info name hinfo hname => ?_⟩
      cases i with
      | zero =>
        -- reported against the history as it is before this lookup
        cases hinfo
        cases hname
        rw [hfirst, hone.1, h x.pid, List.take_zero, List.filterMap_nil, List.append_nil]
        exact hdist.trueCPU
      | succ i =>
        have hrest := hinfos i info name hinfo hname
        rw [List.append_assoc] at hrest
        rw [List.take_succ_cons, List.filterMap_cons_some hfirst]
        exact hrest

end Step

/-! ## Runs of calls -/

section Runs

variable {r r' : Reader} {c : Call} {hs : List Lookup} {cs : List Call}
  {s s' : Reader × List Lookup}
  {snap : Snapshot}

/-- The reader, and the history of its lookups. -/
def Monitored : Reader × List Lookup → Call → Reader × List Lookup → Prop :=
  Recorded (fun _ c => c.lookups) Reader.Calls

/-- Each lookup of the call is distinguished in the history. -/
def SettledAt (s : Reader × List Lookup) (c : Call) : Prop := Settled s.2 c.lookups

theorem Call.lookups_of_failed (h : c.result.isOk = false) : c.lookups = [] := by
  rw [lookups, h]
  rfl

theorem Reader.Knows.calls (h : r.Knows hs) (hcalls : r.Calls c r')
    (hsettled : Settled hs c.lookups) : r'.Knows (hs ++ c.lookups) ∧
      ∀ snap, c.result = .ok snap → ∀ i info name, snap.processes[i]? = some info →
        watchedProcesses[i]? = some name →
        TrueInfo (hs ++ (watchedProcesses.take i).filterMap c.kernel.lookup) (c.kernel.lookup name)
          info.cpuPct := by
  cases hcalls.cases with
  | unread hstat hresult hafter =>
    rw [c.lookups_of_failed hresult, List.append_nil, hafter]
    refine ⟨h, fun snap hok => ?_⟩
    rw [hok] at hresult
    cases hresult
  | broken hstat hbroken hresult hafter =>
    rw [c.lookups_of_failed hresult, List.append_nil]
    refine ⟨h.congr (by rw [hafter]; rfl), fun snap hok => ?_⟩
    rw [hok] at hresult
    cases hresult
  | @done overall perCore stats snap' r₀ hstat hreadable hnet hresult htakenAt hcpu hinterfaces
      hprocesses hprevProc hcpu' hcpus' hnet' hproc' =>
    have hlookups : c.lookups = watchedProcesses.filterMap c.kernel.lookup := by
      rw [Call.lookups, hresult]
      rfl
    rw [hlookups] at hsettled ⊢
    obtain ⟨hknows, hinfos⟩ := (h.congr hprevProc).readEach hsettled
    refine ⟨hknows.congr hproc', fun snap hok => ?_⟩
    rw [hresult] at hok
    cases hok
    rw [hprocesses]
    exact hinfos

theorem knows_of_run (h : Run (When SettledAt Monitored) (.new, []) cs s) : s.1.Knows s.2 := by
  induction h with
  | nil => exact fun _ => rfl
  | snoc _ hlast ih =>
    obtain ⟨hsettled, hcalls, hhistory⟩ := hlast
    rw [hhistory]
    exact (ih.calls hcalls hsettled).1

/-- In a run whose lookups are all distinguished no percentage mixes two processes. -/
theorem process_cpu_true (hrun : Run (When SettledAt Monitored) (.new, []) cs s)
    (hlast : When SettledAt Monitored s c s') (hok : c.result = .ok snap) :
    ∀ i info name, snap.processes[i]? = some info → watchedProcesses[i]? = some name →
      TrueInfo (s.2 ++ (watchedProcesses.take i).filterMap c.kernel.lookup) (c.kernel.lookup name)
        info.cpuPct := by
  obtain ⟨hsettled, hcalls, -⟩ := hlast
  exact ((knows_of_run hrun).calls hcalls hsettled).2 snap hok

end Runs

namespace Kat

/-- `acm-agent` runs under PID 7 since `starttime`. -/
def agent (now : Int) (utime starttime : String) : Kernel :=
  { Kernel.ofContents now [("/proc/stat", "cpu 1\n"), ("/proc/meminfo", ""),
      ("/proc/net/dev", "")] with
    process := fun _ =>
      { Files.ofContents [("/proc/7/comm", "acm-agent\n"),
          ("/proc/7/stat", "7 (acm-agent) S 1 7 7 0 -1 " ++ "0 0 0 0 0 " ++ utime ++
            " 0 0 0 20 0 4 0 " ++ starttime ++ " 0 0\n")] with
        readDir := fun _ => some [⟨utf8 "7", true⟩] } }

def lookup (now : Int) (utime starttime : UInt64) : Lookup :=
  ⟨7, ⟨utf8 "S", utime, 0, 4, starttime⟩, now⟩

/-- A first call. -/
def early : Kernel := agent 0 "10" "100"

/-- 2 s later the same process, 100 jiffies further. -/
def later : Kernel := agent 2000000000 "110" "100"

/-- 2 s later another process with this PID. -/
def reused : Kernel := agent 2000000000 "110" "5000"

def earlyCall : Call := ⟨early, (Reader.new.snapshot early).1⟩

def afterEarly : Reader × List Lookup := ((Reader.new.snapshot early).2, [lookup 0 10 100])

/-- The second call. -/
def secondCall (k : Kernel) : Call := ⟨k, (afterEarly.1.snapshot k).1⟩

theorem monitored_early : Monitored (.new, []) earlyCall afterEarly := by
  have hlookups : earlyCall.lookups = [lookup 0 10 100] := by decide +kernel
  refine ⟨rfl, ?_⟩
  show _ = [] ++ earlyCall.lookups
  rw [hlookups]
  rfl

theorem settled_early : SettledAt (.new, []) earlyCall := by
  have hlookups : earlyCall.lookups = [lookup 0 10 100] := by decide +kernel
  rw [SettledAt, hlookups]
  refine ⟨fun p hp => ?_, trivial⟩
  cases hp

def afterSecond (k : Kernel) : Reader × List Lookup :=
  ((afterEarly.1.snapshot k).2, afterEarly.2 ++ (secondCall k).lookups)

theorem monitored_second (k : Kernel) : Monitored afterEarly (secondCall k) (afterSecond k) :=
  ⟨rfl, rfl⟩

def percentages (c : Call) : Option (List ℚ) :=
  c.result.toOption.map fun snap => snap.processes.map ProcessInfo.cpuPct

theorem exists_second {c : Call} (h : percentages c = some [0, 50]) :
    ∃ snap info, c.result = .ok snap ∧ snap.processes[1]? = some info ∧ info.cpuPct = 50 := by
  obtain ⟨snap, hsnap, hpcts⟩ := Option.map_eq_some_iff.mp h
  have hsecond := congrArg (fun pcts : List ℚ => pcts[1]?) hpcts
  rw [List.getElem?_map] at hsecond
  obtain ⟨info, hinfo, hpct⟩ := Option.map_eq_some_iff.mp hsecond
  cases hresult : c.result with
  | error e =>
    rw [hresult] at hsnap
    cases hsnap
  | ok snap' =>
    rw [hresult] at hsnap
    cases hsnap
    exact ⟨snap, info, rfl, hinfo, hpct⟩

end Kat

/-- The 50 percent of a process that goes on are true. -/
theorem process_cpu_true_later : ∃ snap info, (Kat.secondCall Kat.later).result = .ok snap ∧
    snap.processes[1]? = some info ∧ info.cpuPct = 50 ∧
    TrueInfo ([Kat.lookup 0 10 100] ++ (watchedProcesses.take 1).filterMap Kat.later.lookup)
      (Kat.later.lookup (utf8 "acm-agent")) info.cpuPct := by
  obtain ⟨snap, info, hok, hinfo, hpct⟩ :=
    Kat.exists_second (c := Kat.secondCall Kat.later) (by decide +kernel)
  have hlookups : (Kat.secondCall Kat.later).lookups = [Kat.lookup 2000000000 110 100] := by
    decide +kernel
  have hsettled : SettledAt Kat.afterEarly (Kat.secondCall Kat.later) := by
    rw [SettledAt, hlookups]
    refine ⟨fun p hp => .inl ?_, trivial⟩
    cases hp
    decide
  exact ⟨snap, info, hok, hinfo, hpct, process_cpu_true
    (.single ⟨Kat.settled_early, Kat.monitored_early⟩) ⟨hsettled, Kat.monitored_second _⟩ hok 1
    info (utf8 "acm-agent") hinfo rfl⟩

/-- The first snapshot that sees the process which has got PID 7 reports 50 percent: what its
counter is above that of the process before. -/
theorem process_cpu_mixed : ∃ snap info s,
    Run Monitored (.new, []) [Kat.earlyCall, Kat.secondCall Kat.reused] s ∧
    (Kat.secondCall Kat.reused).result = .ok snap ∧ snap.processes[1]? = some info ∧
    info.cpuPct = 50 ∧
    Kat.reused.lookup (utf8 "acm-agent") = some (Kat.lookup 2000000000 110 5000) ∧
    ¬TrueCPU [Kat.lookup 0 10 100] (Kat.lookup 2000000000 110 5000) info.cpuPct := by
  obtain ⟨snap, info, hok, hinfo, hpct⟩ :=
    Kat.exists_second (c := Kat.secondCall Kat.reused) (by decide +kernel)
  refine ⟨snap, info, _, .cons Kat.monitored_early (.single (Kat.monitored_second _)), hok, hinfo,
    hpct, by decide +kernel, fun h => ?_⟩
  have hnew : ∀ p ∈ [Kat.lookup 0 10 100],
      ¬p.SameIncarnation (Kat.lookup 2000000000 110 5000) := by
    intro p hp hsame
    rw [List.mem_singleton.mp hp] at hsame
    exact absurd hsame.2 (by decide)
  have hzero := h.first hnew
  rw [hpct] at hzero
  norm_num at hzero

end SmartSfp.Sysmon
