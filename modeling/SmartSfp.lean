import SmartSfp.Wire.Grammar
import SmartSfp.Wire.RoundTrip
import SmartSfp.Wire.Integrity
import SmartSfp.Wire.Interchange
import SmartSfp.Cryptod.Sequential
import SmartSfp.Cryptod.Solo
import SmartSfp.Cryptod.Acceptance
import SmartSfp.Cryptod.Naming
import SmartSfp.Cryptod.Aad
import SmartSfp.Cryptod.Rotation
import SmartSfp.Cryptod.Encryption
import SmartSfp.Cryptod.Provenance
import SmartSfp.Cryptod.Freshness
import SmartSfp.Cryptod.Counters
import SmartSfp.Cryptod.Status
import SmartSfp.Cryptod.Totality
import SmartSfp.Ipc.Pairing
import SmartSfp.Metrics.Series
import SmartSfp.Metrics.Scrape
import SmartSfp.Ipc.Codec
import SmartSfp.Node.Report
import SmartSfp.Cryptod.Verdict
import SmartSfp.Wire.Refusal
import SmartSfp.Crypto.Wiped
import SmartSfp.Ipc.Session
import SmartSfp.Ipc.Cut
import SmartSfp.Sysmon.Failure
import SmartSfp.Sysmon.Traffic
import SmartSfp.Sysmon.Cores
import SmartSfp.Sysmon.StartTimes
import SmartSfp.Sysmon.StatLine
import SmartSfp.Sysmon.NetDev
import SmartSfp.Sysmon.Figures
import SmartSfp.Cryptod.Traffic
import SmartSfp.Node.Sequence
import SmartSfp.Cryptod.Forgery
import SmartSfp.Node.Monitor
import SmartSfp.Cmd.RotateThenTest
import SmartSfp.Cmd.Evidence
