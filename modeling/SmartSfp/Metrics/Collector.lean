import SmartSfp.Sysmon.Reader

/-!
# Collector — a snapshot as Prometheus metrics

The descriptors `NewSystem` makes and the metrics `Collect` sends for them, in order.  Checks of the
client library are not modelled.
-/

namespace SmartSfp.Metrics

open Lib Text Sysmon

inductive ValueType where
  | gauge
  | counter
  deriving DecidableEq, Repr

structure Desc where
  fqName : String
  variableLabels : List String
  deriving DecidableEq

/-- `prometheus.MustNewConstMetric`. -/
structure Metric where
  desc : Desc
  valueType : ValueType
  value : ℚ
  labelValues : List Text
  deriving DecidableEq

/-- What tells one series from another. -/
def Metric.series (m : Metric) : String × List Text := (m.desc.fqName, m.labelValues)

/-! ## Descriptors -/

/-- A descriptor in the namespace of the module. -/
def moduleDesc (name : String) (variableLabels : List String) : Desc :=
  ⟨"acm_module" ++ name, variableLabels⟩

namespace SystemCollector

def uptime : Desc := moduleDesc "_uptime_seconds" []
def loadavg : Desc := moduleDesc "_load_average" ["period"]
def cpuBusy : Desc := moduleDesc "_cpu_busy_pct" []
def cpuPerCore : Desc := moduleDesc "_cpu_core_busy_pct" ["core"]
def memTotal : Desc := moduleDesc "_memory_total_bytes" []
def memAvail : Desc := moduleDesc "_memory_available_bytes" []
def memUsedPct : Desc := moduleDesc "_memory_used_pct" []
def fsSize : Desc := moduleDesc "_filesystem_size_bytes" ["mount"]
def fsUsed : Desc := moduleDesc "_filesystem_used_bytes" ["mount"]
def fsUsedPct : Desc := moduleDesc "_filesystem_used_pct" ["mount"]
def tempC : Desc := moduleDesc "_temperature_celsius" ["sensor"]
def ifUp : Desc := moduleDesc "_interface_up" ["iface"]
def ifRxBytes : Desc := moduleDesc "_interface_rx_bytes_total" ["iface"]
def ifTxBytes : Desc := moduleDesc "_interface_tx_bytes_total" ["iface"]
def ifRxPackets : Desc := moduleDesc "_interface_rx_packets_total" ["iface"]
def ifTxPackets : Desc := moduleDesc "_interface_tx_packets_total" ["iface"]
def ifRxErrors : Desc := moduleDesc "_interface_rx_errors_total" ["iface"]
def ifTxErrors : Desc := moduleDesc "_interface_tx_errors_total" ["iface"]
def ifRxBpsNow : Desc := moduleDesc "_interface_rx_bps" ["iface"]
def ifTxBpsNow : Desc := moduleDesc "_interface_tx_bps" ["iface"]
def procUp : Desc := ⟨"acm_process_up", ["name"]⟩
def procRSS : Desc := ⟨"acm_process_memory_rss_bytes", ["name"]⟩
def procCPUPct : Desc := ⟨"acm_process_cpu_percent", ["name"]⟩
def procThreads : Desc := ⟨"acm_process_threads", ["name"]⟩
def procStartTime : Desc := ⟨"acm_process_start_time_seconds", ["name"]⟩
def procUptime : Desc := ⟨"acm_process_uptime_seconds", ["name"]⟩
def procBinarySize : Desc := ⟨"acm_process_binary_size_bytes", ["name", "path"]⟩
def procBinaryMtime : Desc := ⟨"acm_process_binary_mtime_seconds", ["name", "path"]⟩

end SystemCollector

open SystemCollector

/-! ## The label of a core -/

/-- The character of `rune(n)` in a string: U+FFFD where the `int32` is not one. -/
def runeChar (n : Nat) : Char :=
  let r := UInt32.ofNat n
  if h : r.isValidChar then ⟨r, h⟩ else '\uFFFD'

/-- `itoa`; `'0'` is 48. -/
def itoa (n : Nat) : Text :=
  if n = 0 then utf8 "0"
  else if n < 10 then utf8 (String.ofList [runeChar (48 + n)])
  else utf8 (String.ofList [runeChar (48 + n / 10), runeChar (48 + n % 10)])

/-! ## Collect -/

def gauge (desc : Desc) (value : ℚ) (labelValues : List Text) : Metric :=
  ⟨desc, .gauge, value, labelValues⟩

def counter (desc : Desc) (value : UInt64) (labelValues : List Text) : Metric :=
  ⟨desc, .counter, value.toNat, labelValues⟩

/-- Kilobytes as bytes. -/
def bytesOfKB (kb : UInt64) : ℚ := kb.toNat * 1024

/-- `up := 0.0; if b { up = 1.0 }`. -/
def boolValue (b : Bool) : ℚ := if b then 1 else 0

def loadMetrics (loadAvg : ℚ × ℚ × ℚ) : List Metric :=
  [gauge loadavg loadAvg.1 [utf8 "1m"], gauge loadavg loadAvg.2.1 [utf8 "5m"],
    gauge loadavg loadAvg.2.2 [utf8 "15m"]]

def coreMetrics (perCore : List ℚ) : List Metric :=
  perCore.zipIdx.map fun x => gauge cpuPerCore x.1 [itoa x.2]

def memoryMetrics (m : MemoryInfo) : List Metric :=
  [gauge memTotal (bytesOfKB m.totalKB) [], gauge memAvail (bytesOfKB m.availableKB) [],
    gauge memUsedPct m.usedPct []]

def fsMetrics (fs : FSInfo) : List Metric :=
  [gauge fsSize (bytesOfKB fs.sizeKB) [fs.mount], gauge fsUsed (bytesOfKB fs.usedKB) [fs.mount],
    gauge fsUsedPct fs.usedPct [fs.mount]]

def sensorMetric (s : SensorInfo) : Metric := gauge tempC s.tempC [s.name]

def interfaceMetrics (ni : NetInfo) : List Metric :=
  [gauge ifUp (boolValue ni.up) [ni.name],
    counter ifRxBytes ni.rxBytes [ni.name], counter ifTxBytes ni.txBytes [ni.name],
    counter ifRxPackets ni.rxPackets [ni.name], counter ifTxPackets ni.txPackets [ni.name],
    counter ifRxErrors ni.rxErrors [ni.name], counter ifTxErrors ni.txErrors [ni.name],
    gauge ifRxBpsNow ni.rxBpsNow [ni.name], gauge ifTxBpsNow ni.txBpsNow [ni.name]]

def runningMetrics (p : ProcessInfo) : List Metric :=
  if p.running then
    [gauge procRSS (bytesOfKB p.rssKB) [p.name], gauge procCPUPct p.cpuPct [p.name],
      gauge procThreads p.threads [p.name], gauge procStartTime p.startUnixS.toInt [p.name],
      gauge procUptime p.uptimeS [p.name]]
  else []

def binaryMetrics (p : ProcessInfo) : List Metric :=
  if 0 < p.binarySize then
    let path := if p.exePath = [] then utf8 "(unknown)" else p.exePath
    [gauge procBinarySize p.binarySize [p.name, path],
      gauge procBinaryMtime p.binaryMtimeUnixS [p.name, path]]
  else []

def processMetrics (p : ProcessInfo) : List Metric :=
  gauge procUp (boolValue p.running) [p.name] :: (runningMetrics p ++ binaryMetrics p)

/-- The metrics of a snapshot. -/
def metricsOf (snap : Snapshot) : List Metric :=
  [gauge uptime snap.uptimeS []] ++ loadMetrics snap.loadAvg ++
    [gauge cpuBusy snap.cpu.busyPct []] ++ coreMetrics snap.cpu.perCore ++
    memoryMetrics snap.memory ++ snap.filesystems.flatMap fsMetrics ++
    snap.sensors.map sensorMetric ++ snap.interfaces.flatMap interfaceMetrics ++
    snap.processes.flatMap processMetrics

/-- `Collect`; without a snapshot it sends nothing. -/
def collect (sys : Reader) (k : Kernel) : List Metric × Reader :=
  match sys.snapshot k with
  | (.error _, sys) => ([], sys)
  | (.ok snap, sys) => (metricsOf snap, sys)

end SmartSfp.Metrics
