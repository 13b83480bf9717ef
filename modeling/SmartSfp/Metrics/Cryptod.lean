import SmartSfp.Ipc.Client
import SmartSfp.Metrics.Collector

/-!
# Cryptod — the state of the daemon as Prometheus metrics

The descriptors `New` makes and the metrics `Collect` sends, from the return of its one call of
`GetStatus` on.
-/

namespace SmartSfp.Metrics

open Lib Text Ipc

/-- Every whole number up to here is a `float64`. -/
def exactInts : Nat := 2 ^ 53

namespace CryptodCollector

/-- A descriptor in the namespace of the daemon. -/
def cryptodDesc (name : String) (variableLabels : List String) : Desc :=
  ⟨"acm_cryptod" ++ name, variableLabels⟩

def up : Desc := cryptodDesc "_up" []
def uptimeSeconds : Desc := cryptodDesc "_uptime_seconds" []
def versionInfo : Desc := cryptodDesc "_version_info" ["version", "active_provider"]
def activeKeyID : Desc := cryptodDesc "_active_key_id" []
def packetsSealed : Desc := cryptodDesc "_packets_sealed_total" []
def packetsOpened : Desc := cryptodDesc "_packets_opened_total" []
def cryptoErrors : Desc := cryptodDesc "_errors_total" []
def ipcScrapeLatency : Desc := cryptodDesc "_ipc_scrape_seconds" []

/-- The key id, or -1 without a key. -/
def keyIdValue : Option UInt32 → ℚ
  | some id => id.toNat
  | none => -1

/-- The metrics of a report. -/
def reportMetrics (st : StatusReport) : List Metric :=
  [gauge up 1 [], gauge uptimeSeconds st.uptimeS.toNat [],
    gauge versionInfo 1 [utf8 st.version, utf8 st.activeProvider],
    gauge activeKeyID (keyIdValue st.activeKeyId) [], counter packetsSealed st.packetsSealed [],
    counter packetsOpened st.packetsOpened [], counter cryptoErrors st.cryptoErrors []]

/-- `Collect` from the return of its call on; `scrapeSec` is how long that took. -/
def collect (scrapeSec : ℚ) (returned : Returned) : List Metric :=
  gauge ipcScrapeLatency scrapeSec [] ::
    match returned with
    | .status st => reportMetrics st
    | _ => [gauge up 0 []]

end CryptodCollector

open CryptodCollector

/-- The value of a series, if it was sent. -/
def valueOf (desc : Desc) (ms : List Metric) : Option ℚ :=
  (ms.find? fun m => m.desc = desc).map Metric.value

end SmartSfp.Metrics
