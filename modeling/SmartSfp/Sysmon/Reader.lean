import Mathlib.Algebra.Order.Field.Rat
import SmartSfp.Sysmon.Sources

/-!
# Reader — the state kept between `Snapshot` calls

`Snapshot` runs under the mutex of the reader, so a run of the agent is a sequence of calls.  A call
returns the reader as it leaves it, also where it fails after some of its readers have stored their
samples.
-/

namespace SmartSfp.Sysmon

open Lib Text

structure NetSample where
  takenAt : Int
  rxBytes : UInt64
  txBytes : UInt64
  deriving DecidableEq

structure ProcSample where
  takenAt : Int
  /-- `utime + stime` in jiffies. -/
  utimePlus : UInt64
  deriving DecidableEq

structure Reader where
  prevCPU : Option CPUStat
  prevCPUs : Samples Nat CPUStat
  prevNet : Samples Text NetSample
  prevProc : Samples Text ProcSample
  prevAt : Option Int
  /-- The package variable; 0 until it is read. -/
  bootTimeCached : Int64

/-- `NewReader`. -/
def Reader.new : Reader := ⟨none, fun _ => none, fun _ => none, fun _ => none, none, 0⟩

/-- `Seconds` of a duration. -/
def seconds (duration : Int) : ℚ := duration / 1000000000

/-! ## CPU -/

/-- The busy percentage of a core since the sample that is kept of it. -/
def coreBusy (prev : Option CPUStat) (st : CPUStat) : ℚ :=
  match prev with
  | some p => pctBusy p st
  | none => 0

/-- A core keeps its sample under its position in the list. -/
def coreSlot (x : CPUStat × Nat) : Option (Nat × CPUStat) := some (x.2, x.1)

/-- `for i, st := range perCore`. -/
def readCores (perCore : List CPUStat) (prevCPUs : Samples Nat CPUStat) :
    List ℚ × Samples Nat CPUStat :=
  sampleAll coreSlot (fun prev x => coreBusy prev x.1) perCore.zipIdx prevCPUs

theorem readCores_length (perCore : List CPUStat) (prevCPUs : Samples Nat CPUStat) :
    (readCores perCore prevCPUs).1.length = perCore.length := by
  rw [readCores, sampleAll_length, List.length_zipIdx]

/-- The counters `readCPU` finds. -/
def readStat (f : Files) : Except String (CPUStat × List CPUStat) := do
  let content ← f.readFile (utf8 "/proc/stat")
  match scanCPU none [] (scanLines content) with
  | (none, _) => throw "no overall cpu line"
  | (some overall, perCore) => return (overall, perCore)

/-- The rest of `readCPU`. -/
def Reader.storeCPU (r : Reader) (overall : CPUStat) (perCore : List CPUStat) : CPUInfo × Reader :=
  let cores := readCores perCore r.prevCPUs
  ({ cores := perCore.length, busyPct := coreBusy r.prevCPU overall, perCore := cores.1 },
    { r with prevCPU := some overall, prevCPUs := cores.2 })

def Reader.readCPU (r : Reader) (f : Files) : Except String (CPUInfo × Reader) := do
  let (overall, perCore) ← readStat f
  return r.storeCPU overall perCore

/-! ## Network -/

/-- An interface with its counters. -/
structure NetReading where
  name : Text
  raw : RawNet

/-- Bits a second since a sample, for one of its counters. -/
def bpsNow (prev : Option NetSample) (counter : NetSample → UInt64) (now : Int) (bytes : UInt64) :
    ℚ :=
  match prev with
  | none => 0
  | some p =>
    let dt := seconds (now - p.takenAt)
    if 1 / 20 < dt ∧ counter p ≤ bytes then ((bytes - counter p).toNat : ℚ) * 8 / dt else 0

def netInfo (f : Files) (now : Int) (prev : Option NetSample) (x : NetReading) : NetInfo :=
  { name := x.name
    up := trimSpace (readString f (netPath x.name "operstate")) = utf8 "up"
    mtu := (atoi (trimSpace (readString f (netPath x.name "mtu")))).1
    rxBytes := x.raw.rxBytes, txBytes := x.raw.txBytes
    rxPackets := x.raw.rxPackets, txPackets := x.raw.txPackets
    rxErrors := x.raw.rxErrors, txErrors := x.raw.txErrors
    rxDropped := x.raw.rxDropped, txDropped := x.raw.txDropped
    rxBpsNow := bpsNow prev NetSample.rxBytes now x.raw.rxBytes
    txBpsNow := bpsNow prev NetSample.txBytes now x.raw.txBytes }

def netSlot (now : Int) (x : NetReading) : Option (Text × NetSample) :=
  some (x.name, { takenAt := now, rxBytes := x.raw.rxBytes, txBytes := x.raw.txBytes })

/-- The interfaces to report that there are. -/
def netReadings (stats : Samples Text RawNet) : List NetReading :=
  sortedInterfaces.filterMap fun name => (stats name).map fun raw => ⟨name, raw⟩

/-- The loop of `readNet`. -/
def Reader.storeNet (r : Reader) (f : Files) (now : Int) (stats : Samples Text RawNet) :
    List NetInfo × Reader :=
  let nets := sampleAll (netSlot now) (netInfo f now) (netReadings stats) r.prevNet
  (nets.1, { r with prevNet := nets.2 })

def Reader.readNet (r : Reader) (f : Files) (now : Int) :
    Except String (List NetInfo × Reader) := do
  let stats ← parseProcNetDev f
  return r.storeNet f now stats

/-! ## Processes -/

/-- The key of a process in `prevProc`. -/
def procKey (pid : Int) : Text := utf8 "pid-" ++ Text.itoa pid

def procCPUPct (prev : Option ProcSample) (now : Int) (cur : UInt64) : ℚ :=
  match prev with
  | none => 0
  | some p =>
    let dt := seconds (now - p.takenAt)
    if p.takenAt < now ∧ 1 / 20 < dt ∧ p.utimePlus ≤ cur then
      let pct := ((cur - p.utimePlus).toNat : ℚ) * 100 / (dt * clockTicks.toInt)
      if pct < 0 then 0 else pct
    else 0

/-- A process with only its name. -/
def ProcessInfo.named (name : Text) : ProcessInfo :=
  { name := name, running := false, pid := 0, rssKB := 0, cpuPct := 0, threads := 0, startUnixS := 0
    uptimeS := 0, state := [], exePath := [], binarySize := 0, binaryMtimeUnixS := 0 }

/-- The part of `readOneProcess` that uses `/proc/[pid]/stat`. -/
def Reader.readProcStat (r : Reader) (k : Kernel) (name : Text) (pid : Int) (info : ProcessInfo) :
    ProcessInfo × Reader :=
  match parseProcPidStat (k.process name) pid with
  | none => (info, r)
  | some st =>
    let boot := bootTimeUnix r.bootTimeCached (k.process name)
    let startUnixS := boot.1 + st.starttime.toInt64 / clockTicks
    let cur := st.utime + st.stime
    ({ info with
        state := st.state
        threads := st.threads
        startUnixS := startUnixS
        uptimeS := (k.nowUnix name - startUnixS).toInt
        cpuPct := procCPUPct (r.prevProc (procKey pid)) k.now cur },
      { r with
        bootTimeCached := boot.2
        prevProc := Function.update r.prevProc (procKey pid) (some ⟨k.now, cur⟩) })

/-- The end of `readOneProcess`: memory and the binary. -/
def addBinary (f : Files) (pid : Int) (info : ProcessInfo) : ProcessInfo :=
  let info := { info with rssKB := (parseProcPidStatusVmRSS f pid).getD info.rssKB }
  match f.readlink (procPath pid "exe") with
  | none => info
  | some exe =>
    match f.stat exe with
    | none => { info with exePath := exe }
    | some fi =>
      { info with exePath := exe, binarySize := fi.size, binaryMtimeUnixS := fi.modTimeUnix }

def Reader.readOneProcess (r : Reader) (k : Kernel) (name : Text) : ProcessInfo × Reader :=
  let info := ProcessInfo.named name
  match findPIDByComm (k.process name) name with
  | none =>
    let (exePath, size, mtime) := guessBinaryOnDisk (k.process name) name
    ({ info with exePath := exePath, binarySize := size, binaryMtimeUnixS := mtime }, r)
  | some pid =>
    let (info, r') := r.readProcStat k name pid { info with pid := pid, running := true }
    (addBinary (k.process name) pid info, r')

/-- `for _, name := range WatchedProcesses`. -/
def Reader.readEach (k : Kernel) : List Text → Reader → List ProcessInfo × Reader
  | [], r => ([], r)
  | name :: names, r =>
    let one := r.readOneProcess k name
    let rest := readEach k names one.2
    (one.1 :: rest.1, rest.2)

def Reader.readProcesses (r : Reader) (k : Kernel) : List ProcessInfo × Reader :=
  Reader.readEach k watchedProcesses r

/-! ## Snapshot -/

def Reader.snapshot (r : Reader) (k : Kernel) : Except String Snapshot × Reader :=
  match r.readCPU k.files with
  | .error e => (.error ("cpu: " ++ e), r)
  | .ok (cpu, r) =>
    match readMemory k.files with
    | .error e => (.error ("memory: " ++ e), r)
    | .ok memory =>
      match r.readNet k.files k.now with
      | .error e => (.error ("net: " ++ e), r)
      | .ok (interfaces, r) =>
        let (processes, r) := r.readProcesses k
        (.ok {
          takenAt := k.now
          uptimeS := (readUptime k).getD 0
          loadAvg := (readLoadAvg k).getD (0, 0, 0)
          cpu := cpu
          memory := memory
          filesystems := readFilesystems k.files
          sensors := readSensors k
          interfaces := interfaces
          processes := processes },
          { r with prevAt := some k.now })

/-! ## What a call returns -/

/-- `addBinary` only fills in the memory and the binary. -/
theorem addBinary_eq (f : Files) (pid : Int) (info : ProcessInfo) :
    ∃ rssKB exePath size mtime, addBinary f pid info =
      { info with
        rssKB := rssKB, exePath := exePath, binarySize := size, binaryMtimeUnixS := mtime } := by
  unfold addBinary
  cases f.readlink (procPath pid "exe") with
  | none => exact ⟨_, _, _, _, rfl⟩
  | some exe =>
    dsimp only
    cases f.stat exe with
    | none => exact ⟨_, _, _, _, rfl⟩
    | some fi => exact ⟨_, _, _, _, rfl⟩

theorem addBinary_name (f : Files) (pid : Int) (info : ProcessInfo) :
    (addBinary f pid info).name = info.name := by
  obtain ⟨_, _, _, _, heq⟩ := addBinary_eq f pid info
  rw [heq]

theorem addBinary_cpuPct (f : Files) (pid : Int) (info : ProcessInfo) :
    (addBinary f pid info).cpuPct = info.cpuPct := by
  obtain ⟨_, _, _, _, heq⟩ := addBinary_eq f pid info
  rw [heq]

theorem Reader.readProcStat_name (r : Reader) (k : Kernel) (name : Text) (pid : Int)
    (info : ProcessInfo) : (r.readProcStat k name pid info).1.name = info.name := by
  unfold readProcStat
  cases parseProcPidStat (k.process name) pid with
  | none => rfl
  | some st => rfl

theorem Reader.readOneProcess_name (r : Reader) (k : Kernel) (name : Text) :
    (r.readOneProcess k name).1.name = name := by
  unfold readOneProcess
  cases findPIDByComm (k.process name) name with
  | none => rfl
  | some pid =>
    show (addBinary _ pid _).name = name
    rw [addBinary_name, readProcStat_name]
    rfl

theorem Reader.readEach_names (k : Kernel) (names : List Text) (r : Reader) :
    (readEach k names r).1.map ProcessInfo.name = names := by
  induction names generalizing r with
  | nil => rfl
  | cons name names ih =>
    simp only [readEach, List.map_cons]
    rw [readOneProcess_name, ih]

/-- No interface is read twice. -/
theorem netReadings_names (stats : Samples Text RawNet) :
    ((netReadings stats).map NetReading.name).Nodup := by
  have hname : ∀ name x, ((stats name).map fun raw => NetReading.mk name raw) = some x →
      x.name = name := by
    intro name x h
    obtain ⟨raw, -, rfl⟩ := Option.map_eq_some_iff.mp h
    rfl
  have hfixed : sortedInterfaces.Nodup := by decide
  exact (map_filterMap_sublist hname sortedInterfaces).nodup hfixed

end SmartSfp.Sysmon
