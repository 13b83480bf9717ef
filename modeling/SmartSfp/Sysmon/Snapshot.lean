import Mathlib.Data.Rat.Defs
import SmartSfp.Lib.Baseline
import SmartSfp.Lib.Text

/-!
# Snapshot — what the agent reports of its module, and what it reads for it

Floating-point numbers are exact rationals, times are nanoseconds of the monotonic clock.  The
kernel is what one `Snapshot` call finds under `/proc` and `/sys`: a file has one content for all
of the readers of the module and, as it may change meanwhile, another for each process looked up.
-/

namespace SmartSfp.Sysmon

open Lib Text

structure CPUInfo where
  cores : Nat
  busyPct : ℚ
  perCore : List ℚ
  deriving DecidableEq

structure MemoryInfo where
  totalKB : UInt64
  availableKB : UInt64
  freeKB : UInt64
  buffersKB : UInt64
  cachedKB : UInt64
  usedPct : ℚ
  deriving DecidableEq

structure FSInfo where
  mount : Text
  sizeKB : UInt64
  usedKB : UInt64
  usedPct : ℚ
  deriving DecidableEq

structure SensorInfo where
  name : Text
  tempC : ℚ
  deriving DecidableEq

structure NetInfo where
  name : Text
  up : Bool
  mtu : Int
  rxBytes : UInt64
  txBytes : UInt64
  rxPackets : UInt64
  txPackets : UInt64
  rxErrors : UInt64
  txErrors : UInt64
  rxDropped : UInt64
  txDropped : UInt64
  rxBpsNow : ℚ
  txBpsNow : ℚ
  deriving DecidableEq

structure ProcessInfo where
  name : Text
  running : Bool
  pid : Int
  rssKB : UInt64
  cpuPct : ℚ
  threads : Int
  startUnixS : Int64
  uptimeS : ℚ
  state : Text
  exePath : Text
  binarySize : Int
  binaryMtimeUnixS : Int
  deriving DecidableEq

structure Snapshot where
  takenAt : Int
  uptimeS : ℚ
  loadAvg : ℚ × ℚ × ℚ
  cpu : CPUInfo
  memory : MemoryInfo
  filesystems : List FSInfo
  sensors : List SensorInfo
  interfaces : List NetInfo
  processes : List ProcessInfo
  deriving DecidableEq

/-! ## What is read -/

/-- What `syscall.Statfs` tells of a mount. -/
structure Statfs where
  bsize : Int64
  blocks : UInt64
  bavail : UInt64

structure DirEntry where
  name : Text
  isDir : Bool

/-- What `os.Stat` tells of a file. -/
structure FileInfo where
  size : Int
  modTimeUnix : Int

/-- The file system; where no error text is used, `none` is an error. -/
structure Files where
  readFile : Text → Except String Text
  readDir : Text → Option (List DirEntry)
  readlink : Text → Option Text
  stat : Text → Option FileInfo
  statfs : Text → Option Statfs

/-- The error of `os.Open` for a path with no file. -/
def notExist (path : Text) : String :=
  let name := (fromUtf8 path).getD ""
  s!"open {name}: no such file or directory"

/-- Files with these contents and nothing else. -/
def Files.ofContents (contents : List (String × String)) : Files where
  readFile p :=
    match contents.find? fun c => utf8 c.1 = p with
    | some c => .ok (utf8 c.2)
    | none => .error (notExist p)
  readDir _ := none
  readlink _ := none
  stat _ := none
  statfs _ := none

structure Kernel where
  /-- `time.Now()`. -/
  now : Int
  files : Files
  /-- What the lookup of a watched process finds. -/
  process : Text → Files
  /-- `time.Now().Unix()` in that lookup. -/
  nowUnix : Text → Int64
  /-- The directories `/sys/class/hwmon/hwmon*` that have a `name`, as `filepath.Glob` orders
  them. -/
  hwmon : List Text
  /-- `strconv.ParseFloat`. -/
  parseFloat : Text → Option ℚ

/-- A module with these files and without processes and sensors. -/
def Kernel.ofContents (now : Int) (contents : List (String × String)) : Kernel where
  now := now
  files := Files.ofContents contents
  process _ := Files.ofContents []
  nowUnix _ := 0
  hwmon := []
  parseFloat _ := none

end SmartSfp.Sysmon
