import Mathlib.Data.List.Sort
import SmartSfp.Lib.Float64
import SmartSfp.Sysmon.Snapshot

/-!
# Sources — the files under `/proc` and `/sys`, parsed

Everything here is a function of the files alone; what is kept from one `Snapshot` to the next is
in `Reader`.
-/

namespace SmartSfp.Sysmon

open Lib Text

/-- `readString`. -/
def readString (f : Files) (p : Text) : Text := (f.readFile p).toOption.getD []

/-- The value `strconv.ParseUint(s, 10, 64)` leaves when its error is dropped. -/
def uint (s : Text) : UInt64 := (parseUint s).1

/-! ## Uptime and load average -/

def readUptime (k : Kernel) : Option ℚ := do
  let b ← (k.files.readFile (utf8 "/proc/uptime")).toOption
  let first ← (fields b).head?
  k.parseFloat first

def readLoadAvg (k : Kernel) : Option (ℚ × ℚ × ℚ) := do
  let b ← (k.files.readFile (utf8 "/proc/loadavg")).toOption
  match fields b with
  | one :: five :: fifteen :: _ =>
    return (← k.parseFloat one, ← k.parseFloat five, ← k.parseFloat fifteen)
  | _ => none

/-! ## CPU -/

structure CPUStat where
  user : UInt64
  nice : UInt64
  system : UInt64
  idle : UInt64
  iowait : UInt64
  irq : UInt64
  softirq : UInt64
  steal : UInt64
  deriving DecidableEq

namespace CPUStat

def total (c : CPUStat) : UInt64 :=
  c.user + c.nice + c.system + c.idle + c.iowait + c.irq + c.softirq + c.steal

def busy (c : CPUStat) : UInt64 := c.user + c.nice + c.system + c.irq + c.softirq + c.steal

end CPUStat

def parseCPULine (parts : List Text) : CPUStat :=
  let get (i : Nat) : UInt64 :=
    match parts[i + 1]? with
    | none => 0
    | some s => uint s
  { user := get 0, nice := get 1, system := get 2, idle := get 3
    iowait := get 4, irq := get 5, softirq := get 6, steal := get 7 }

/-- The loop of `readCPU` over the lines of `/proc/stat`: the overall counters and those of the
cores, with what was found before. -/
def scanCPU (overall : Option CPUStat) (perCore : List CPUStat) :
    List Text → Option CPUStat × List CPUStat
  | [] => (overall, perCore)
  | line :: rest =>
    if !hasPrefix line (utf8 "cpu") then (overall, perCore)
    else
      let parts := fields line
      let st := parseCPULine parts
      if parts.head? = some (utf8 "cpu") then scanCPU (some st) perCore rest
      else scanCPU overall (perCore ++ [st]) rest

def pctBusy (prev cur : CPUStat) : ℚ :=
  let dt := cur.total - prev.total
  let db := cur.busy - prev.busy
  if dt = 0 then 0
  else
    let v := (db.toNat : ℚ) * 100 / dt.toNat
    if v < 0 then 0 else if 100 < v then 100 else v

/-! ## Memory -/

def parseMeminfoLine (line : Text) : Text × UInt64 :=
  match indexByte line 0x3a with
  | none => ([], 0)
  | some i =>
    let rest := trimSuffix (trimSpace (line.drop (i + 1))) (utf8 " kB")
    (line.take i, uint (trimSpace rest))

/-- The `switch key` of `readMemory`. -/
def MemoryInfo.addLine (m : MemoryInfo) (line : Text) : MemoryInfo :=
  let (key, val) := parseMeminfoLine line
  if key = utf8 "MemTotal" then { m with totalKB := val }
  else if key = utf8 "MemAvailable" then { m with availableKB := val }
  else if key = utf8 "MemFree" then { m with freeKB := val }
  else if key = utf8 "Buffers" then { m with buffersKB := val }
  else if key = utf8 "Cached" then { m with cachedKB := val }
  else m

/-- `float64(used) * 100.0 / float64(whole)`. -/
def percentOf (used whole : UInt64) : ℚ :=
  Float64.div (Float64.mul (Float64.ofNat used.toNat) 100) (Float64.ofNat whole.toNat)

def readMemory (f : Files) : Except String MemoryInfo := do
  let content ← f.readFile (utf8 "/proc/meminfo")
  let m := (scanLines content).foldl MemoryInfo.addLine ⟨0, 0, 0, 0, 0, 0⟩
  if 0 < m.totalKB then
    let used := m.totalKB - m.availableKB
    return { m with usedPct := percentOf used m.totalKB }
  else return m

/-! ## Filesystems -/

def mountsToReport : List Text := [utf8 "/", utf8 "/var", utf8 "/home"]

def readFilesystem (f : Files) (m : Text) : Option FSInfo :=
  (f.statfs m).map fun st =>
    let blockKB := st.bsize / 1024
    let size := st.blocks * blockKB.toUInt64
    let free := st.bavail * blockKB.toUInt64
    let used := size - free
    { mount := m, sizeKB := size, usedKB := used
      usedPct := if 0 < size then percentOf used size else 0 }

def readFilesystems (f : Files) : List FSInfo := mountsToReport.filterMap (readFilesystem f)

theorem readFilesystem_some {f : Files} {m : Text} {fs : FSInfo}
    (h : readFilesystem f m = some fs) : fs.mount = m ∧ ∃ st, f.statfs m = some st := by
  obtain ⟨st, hst, rfl⟩ := Option.map_eq_some_iff.mp h
  exact ⟨rfl, st, hst⟩

/-! ## Sensors -/

/-- What `readSensors` makes of one device. -/
def readSensor (f : Files) (dir : Text) : Option SensorInfo :=
  let name := trimSpace (readString f (dir ++ utf8 "/name"))
  let raw := trimSpace (readString f (dir ++ utf8 "/temp1_input"))
  if raw = [] then none
  else
    match parseInt raw with
    | (_, some _) => none
    | (mC, none) => some { name := name, tempC := (mC : ℚ) / 1000 }

def readSensors (k : Kernel) : List SensorInfo := k.hwmon.filterMap (readSensor k.files)

/-! ## Network -/

structure RawNet where
  rxBytes : UInt64
  rxPackets : UInt64
  rxErrors : UInt64
  rxDropped : UInt64
  txBytes : UInt64
  txPackets : UInt64
  txErrors : UInt64
  txDropped : UInt64
  deriving DecidableEq

/-- One line of `/proc/net/dev` after the header: an interface and its counters. -/
def parseNetLine (line : Text) : Option (Text × RawNet) :=
  match indexByte line 0x3a with
  | none => none
  | some i =>
    let name := trimSpace (line.take i)
    match fields (line.drop (i + 1)) with
    | rxBytes :: rxPackets :: rxErrors :: rxDropped :: _ :: _ :: _ :: _ ::
        txBytes :: txPackets :: txErrors :: txDropped :: _ :: _ :: _ :: _ :: _ =>
      some (name,
        { rxBytes := uint rxBytes, rxPackets := uint rxPackets
          rxErrors := uint rxErrors, rxDropped := uint rxDropped
          txBytes := uint txBytes, txPackets := uint txPackets
          txErrors := uint txErrors, txDropped := uint txDropped })
    | _ => none

/-- `out[name] = rawNet{...}` for the lines that have an interface. -/
def addNetLine (out : Samples Text RawNet) (line : Text) : Samples Text RawNet :=
  match parseNetLine line with
  | none => out
  | some (name, raw) => Function.update out name (some raw)

def parseProcNetDev (f : Files) : Except String (Samples Text RawNet) := do
  let content ← f.readFile (utf8 "/proc/net/dev")
  return ((scanLines content).drop 2).foldl addNetLine fun _ => none

def netInterfaces : List Text := [utf8 "gbe0", utf8 "gbe1", utf8 "br0"]

/-- `netInterfaces` after `sort.Strings`. -/
def sortedInterfaces : List Text := netInterfaces.insertionSort (· ≤ ·)

/-- `filepath.Join("/sys/class/net", name, file)`. -/
def netPath (name : Text) (file : String) : Text :=
  utf8 "/sys/class/net/" ++ name ++ utf8 "/" ++ utf8 file

/-! ## Processes -/

def watchedProcesses : List Text := [utf8 "acm-cryptod", utf8 "acm-agent"]

structure ProcStat where
  state : Text
  /-- In jiffies. -/
  utime : UInt64
  stime : UInt64
  threads : Int
  /-- In jiffies since boot. -/
  starttime : UInt64
  deriving DecidableEq

/-- The PID of a directory of `/proc` whose process has this name. -/
def pidOfEntry (f : Files) (name : Text) (e : DirEntry) : Option Int :=
  if !e.isDir then none
  else
    match atoi e.name with
    | (_, some _) => none
    | (pid, none) =>
      match f.readFile (utf8 "/proc/" ++ e.name ++ utf8 "/comm") with
      | .error _ => none
      | .ok comm => if trimSpace comm = name then some pid else none

def findPIDByComm (f : Files) (name : Text) : Option Int :=
  match f.readDir (utf8 "/proc") with
  | none => none
  | some entries => entries.findSome? (pidOfEntry f name)

/-- A file of `/proc/[pid]`. -/
def procPath (pid : Int) (file : String) : Text :=
  utf8 "/proc/" ++ Text.itoa pid ++ utf8 "/" ++ utf8 file

/-- What `parseProcPidStat` makes of the line. -/
def parseStatLine (line : Text) : Option ProcStat :=
  match lastIndexByte line 0x29 with
  | none => none
  | some rparen =>
    let parts := fields (trimSpace (line.drop (rparen + 1)))
    -- field `n` of proc(5) is at position `n - 3`
    match parts[0]?, parts[11]?, parts[12]?, parts[17]?, parts[19]? with
    | some state, some utime, some stime, some threads, some starttime =>
      some { state := state, utime := uint utime, stime := uint stime
             threads := (atoi threads).1, starttime := uint starttime }
    | _, _, _, _, _ => none

def parseProcPidStat (f : Files) (pid : Int) : Option ProcStat :=
  match f.readFile (procPath pid "stat") with
  | .error _ => none
  | .ok line => parseStatLine line

def parseProcPidStatusVmRSS (f : Files) (pid : Int) : Option UInt64 :=
  match f.readFile (procPath pid "status") with
  | .error _ => none
  | .ok content =>
    (scanLines content).findSome? fun line =>
      let (k, v) := parseMeminfoLine line
      if k = utf8 "VmRSS" then some v else none

def binaryPathCandidates : List Text := [utf8 "/home/user/acm-uz/", utf8 "/usr/local/bin/"]

/-- Path, size and time of the first candidate there is. -/
def guessBinaryOnDisk (f : Files) (name : Text) : Text × Int × Int :=
  let found := binaryPathCandidates.findSome? fun dir =>
    (f.stat (dir ++ name)).map fun fi => (dir ++ name, fi.size, fi.modTimeUnix)
  found.getD ([], 0, 0)

def clockTicks : Int64 := 100

/-- The time of boot, if a line of `/proc/stat` tells it. -/
def btimeOf (content : Text) : Option Int64 :=
  (scanLines content).findSome? fun line =>
    if hasPrefix line (utf8 "btime ") then
      some (Int64.ofInt (parseInt (trimSpace (line.drop 6))).1)
    else none

/-- `bootTimeUnix` and what it leaves in `bootTimeCached`. -/
def bootTimeUnix (cached : Int64) (f : Files) : Int64 × Int64 :=
  if cached ≠ 0 then (cached, cached)
  else
    match f.readFile (utf8 "/proc/stat") with
    | .error _ => (0, cached)
    | .ok content =>
      match btimeOf content with
      | none => (0, cached)
      | some n => (n, n)

end SmartSfp.Sysmon
