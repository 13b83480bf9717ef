import Mathlib.Algebra.BigOperators.Intervals
import Mathlib.Algebra.BigOperators.Ring.Finset
import Mathlib.Algebra.Order.BigOperators.Group.Finset
import Mathlib.Tactic.Linarith
import SmartSfp.Lib.Word
import SmartSfp.Sysmon.Calls

/-!
# Traffic — which bytes the reported rates account for

A rate is reported only after more than 1/20 s, but the sample it is computed against is replaced
by every call.  What a counter grew by within a shorter interval is in no rate.
-/

namespace SmartSfp.Sysmon

open Lib Text

inductive Direction where
  | rx
  | tx
  deriving DecidableEq

namespace Direction

def counter : Direction → RawNet → UInt64
  | rx => RawNet.rxBytes
  | tx => RawNet.txBytes

def sample : Direction → NetSample → UInt64
  | rx => NetSample.rxBytes
  | tx => NetSample.txBytes

def bytes : Direction → NetInfo → UInt64
  | rx => NetInfo.rxBytes
  | tx => NetInfo.txBytes

def bpsNow : Direction → NetInfo → ℚ
  | rx => NetInfo.rxBpsNow
  | tx => NetInfo.txBpsNow

end Direction

/-- The line of an interface in `/proc/net/dev`. -/
def Kernel.rawNet (name : Text) (k : Kernel) : Option RawNet :=
  (parseProcNetDev k.files).toOption.bind fun stats => stats name

/-- What a successful call reports of an interface. -/
def Call.interface (name : Text) (c : Call) : Option NetInfo :=
  c.result.toOption.bind fun snap => snap.interfaces.find? fun info => info.name = name

/-- A counter when it was read, and the rate that was reported. -/
structure Reported where
  takenAt : Int
  bytes : UInt64
  bpsNow : ℚ
  deriving DecidableEq

def Call.reported (d : Direction) (name : Text) (c : Call) : Option Reported := do
  let raw ← c.kernel.rawNet name
  let info ← c.interface name
  return ⟨c.kernel.now, d.counter raw, d.bpsNow info⟩

/-! ## One call -/

section Step

variable {r r' : Reader} {c : Call} {d : Direction} {name : Text} {o : Reported} {info : NetInfo}

theorem netSlot_eq (now : Int) (x : NetReading) :
    netSlot now x = some (x.name, ⟨now, x.raw.rxBytes, x.raw.txBytes⟩) := rfl

theorem mem_netReadings {stats : Samples Text RawNet} {x : NetReading}
    (h : x ∈ netReadings stats) : stats x.name = some x.raw := by
  obtain ⟨name, -, hx⟩ := List.mem_filterMap.mp h
  obtain ⟨raw, hraw, rfl⟩ := Option.map_eq_some_iff.mp hx
  exact hraw

/-- A call reports an interface with its line and its sample from before, and keeps a new one. -/
theorem Reader.Calls.interface (h : r.Calls c r') (hinfo : c.interface name = some info) :
    ∃ raw, c.kernel.rawNet name = some raw ∧
      info = netInfo c.kernel.files c.kernel.now (r.prevNet name) ⟨name, raw⟩ ∧
      r'.prevNet name = some ⟨c.kernel.now, raw.rxBytes, raw.txBytes⟩ := by
  obtain ⟨snap, hsnap, hfind⟩ := Option.bind_eq_some_iff.mp hinfo
  have hname : info.name = name := by simpa using List.find?_some hfind
  have hmem : info ∈ snap.interfaces := List.mem_of_find?_eq_some hfind
  cases h.cases with
  | unread hstat hresult =>
    rw [c.not_ok hresult] at hsnap
    cases hsnap
  | broken hstat hbroken hresult =>
    rw [c.not_ok hresult] at hsnap
    cases hsnap
  | @done overall perCore stats snap' r₀ hstat hreadable hnet hresult htakenAt hcpu hinterfaces
      hprocesses hprevProc hcpu' hcpus' hnet' =>
    rw [hresult] at hsnap
    cases hsnap
    have hnodup := netReadings_names stats
    rw [hinterfaces, Reader.storeNet,
      sampleAll_reports (netSlot_eq c.kernel.now) hnodup r.prevNet] at hmem
    obtain ⟨x, hx, rfl⟩ := List.mem_map.mp hmem
    have hxname : x.name = name := hname
    subst hxname
    refine ⟨x.raw, ?_, rfl, ?_⟩
    · rw [Kernel.rawNet, hnet]
      exact mem_netReadings hx
    · rw [hnet']
      exact sampleAll_of_mem (netSlot_eq c.kernel.now) hnodup hx r.prevNet

/-- The bytes a snapshot shows are those of the line. -/
theorem Reader.Calls.bytes (h : r.Calls c r') (ho : c.reported d name = some o) :
    ∃ info, c.interface name = some info ∧ d.bytes info = o.bytes := by
  unfold Call.reported at ho
  obtain ⟨raw, hraw, ho⟩ := Option.bind_eq_some_iff.mp ho
  obtain ⟨info, hinfo, ho⟩ := Option.bind_eq_some_iff.mp ho
  obtain ⟨raw', hraw', rfl, -⟩ := h.interface hinfo
  rw [hraw] at hraw'
  cases hraw'
  cases ho
  refine ⟨_, hinfo, ?_⟩
  cases d with
  | rx => rfl
  | tx => rfl

/-- The rate is computed against the sample kept, and the counter read becomes the sample. -/
theorem Reader.Calls.reported (h : r.Calls c r') (ho : c.reported d name = some o) :
    o.bpsNow = bpsNow (r.prevNet name) d.sample o.takenAt o.bytes ∧
      ∃ p, r'.prevNet name = some p ∧ p.takenAt = o.takenAt ∧ d.sample p = o.bytes := by
  unfold Call.reported at ho
  obtain ⟨raw, hraw, ho⟩ := Option.bind_eq_some_iff.mp ho
  obtain ⟨info, hinfo, ho⟩ := Option.bind_eq_some_iff.mp ho
  obtain ⟨raw', hraw', rfl, hkept⟩ := h.interface hinfo
  rw [hraw] at hraw'
  cases hraw'
  cases ho
  cases d with
  | rx => exact ⟨rfl, _, hkept, rfl, rfl⟩
  | tx => exact ⟨rfl, _, hkept, rfl, rfl⟩

end Step

/-! ## Runs of calls -/

/-- The rate of the later one can be reported. -/
def Spaced (a b : Reported) : Prop := 1 / 20 < seconds (b.takenAt - a.takenAt)

instance (a b : Reported) : Decidable (Spaced a b) :=
  inferInstanceAs (Decidable (1 / 20 < seconds (b.takenAt - a.takenAt)))

/-- The bits that the counter says have passed between two readings. -/
def bitsBetween (a b : Reported) : ℚ := 8 * (b.bytes.toNat - a.bytes.toNat)

/-- Successful calls, each on the reader the one before leaves, that all find the interface; its
counter never decreases. -/
structure Watch (d : Direction) (name : Text) (n : ℕ) where
  reader : ℕ → Reader
  call : ℕ → Call
  seen : ℕ → Reported
  calls : ∀ i ≤ n, (reader i).Calls (call i) (reader (i + 1))
  reported : ∀ i ≤ n, (call i).reported d name = some (seen i)
  rises : ∀ i < n, (seen i).bytes ≤ (seen (i + 1)).bytes

/-- The readers that successive calls on a new one leave. -/
def Reader.after (ks : ℕ → Kernel) : ℕ → Reader
  | 0 => .new
  | i + 1 => ((Reader.after ks i).snapshot (ks i)).2

/-- The call that is made with the kernel at a position. -/
def Call.at (ks : ℕ → Kernel) (i : ℕ) : Call := ⟨ks i, ((Reader.after ks i).snapshot (ks i)).1⟩

theorem bpsNow_mul_seconds {counter : NetSample → UInt64} {p : NetSample} {now : Int}
    {bytes : UInt64} (hrises : counter p ≤ bytes) :
    bpsNow (some p) counter now bytes * seconds (now - p.takenAt) =
      if 1 / 20 < seconds (now - p.takenAt) then 8 * (bytes.toNat - (counter p).toNat : ℚ)
      else 0 := by
  unfold bpsNow
  dsimp only
  by_cases hdt : 1 / 20 < seconds (now - p.takenAt)
  · have hpos : seconds (now - p.takenAt) ≠ 0 := by
      have : (0 : ℚ) < 1 / 20 := by norm_num
      exact (this.trans hdt).ne'
    rw [if_pos ⟨hdt, hrises⟩, if_pos hdt, cast_toNat_sub hrises, div_mul_cancel₀ _ hpos, mul_comm]
  · rw [if_neg fun h => hdt h.1, if_neg hdt, zero_mul]

namespace Watch

variable {d : Direction} {name : Text} {n : ℕ}

/-- The bits that the rates reported after the first call account for. -/
def bits (w : Watch d name n) : ℚ :=
  ∑ i ∈ Finset.range n,
    (w.seen (i + 1)).bpsNow * seconds ((w.seen (i + 1)).takenAt - (w.seen i).takenAt)

/-- One interval: all of its traffic is accounted for, or none of it. -/
theorem bits_step (w : Watch d name n) {i : ℕ} (hi : i < n) :
    (w.seen (i + 1)).bpsNow * seconds ((w.seen (i + 1)).takenAt - (w.seen i).takenAt) =
      if Spaced (w.seen i) (w.seen (i + 1)) then bitsBetween (w.seen i) (w.seen (i + 1))
      else 0 := by
  -- the sample kept is the one of the call before, whether a rate was reported there or not
  obtain ⟨-, p, hkept, hat, hbytes⟩ := (w.calls i hi.le).reported (w.reported i hi.le)
  obtain ⟨hrate, -⟩ := (w.calls (i + 1) hi).reported (w.reported (i + 1) hi)
  have hrises : d.sample p ≤ (w.seen (i + 1)).bytes := hbytes ▸ w.rises i hi
  rw [hrate, hkept, ← hat, bpsNow_mul_seconds hrises, hbytes, hat]
  rfl

theorem bits_step_le (w : Watch d name n) {i : ℕ} (hi : i < n) :
    (w.seen (i + 1)).bpsNow * seconds ((w.seen (i + 1)).takenAt - (w.seen i).takenAt) ≤
      bitsBetween (w.seen i) (w.seen (i + 1)) := by
  have hnonneg : 0 ≤ bitsBetween (w.seen i) (w.seen (i + 1)) := by
    have hle : ((w.seen i).bytes.toNat : ℚ) ≤ (w.seen (i + 1)).bytes.toNat :=
      Nat.cast_le.mpr (UInt64.le_iff_toNat_le.mp (w.rises i hi))
    unfold bitsBetween
    linarith
  rw [w.bits_step hi]
  split
  · exact le_refl _
  · exact hnonneg

/-- The traffic of the intervals adds up to that of the run. -/
theorem sum_bitsBetween (w : Watch d name n) :
    ∑ i ∈ Finset.range n, bitsBetween (w.seen i) (w.seen (i + 1)) =
      8 * ((w.seen n).bytes.toNat - (w.seen 0).bytes.toNat : ℚ) := by
  unfold bitsBetween
  rw [← Finset.mul_sum, Finset.sum_range_sub fun i => ((w.seen i).bytes.toNat : ℚ)]

end Watch

/-- The reported rates account for all of the traffic between the first and the last call exactly
when no interval in which the counter grew is 1/20 s or shorter. -/
theorem traffic_reported_iff {d : Direction} {name : Text} {n : ℕ} (w : Watch d name n) :
    w.bits = 8 * ((w.seen n).bytes.toNat - (w.seen 0).bytes.toNat : ℚ) ↔
      ∀ i < n, Spaced (w.seen i) (w.seen (i + 1)) ∨ (w.seen i).bytes = (w.seen (i + 1)).bytes := by
  -- no interval accounts for more than its traffic, so the sums agree if all of the terms do
  rw [← w.sum_bitsBetween, Watch.bits,
    Finset.sum_eq_sum_iff_of_le fun i hi => w.bits_step_le (Finset.mem_range.mp hi)]
  refine forall_congr' fun i => ?_
  rw [Finset.mem_range]
  refine imp_congr_right fun hi => ?_
  rw [w.bits_step hi]
  by_cases hspaced : Spaced (w.seen i) (w.seen (i + 1))
  · rw [if_pos hspaced]
    exact iff_of_true rfl (.inl hspaced)
  · rw [if_neg hspaced, or_iff_right hspaced, bitsBetween, ← UInt64.toNat_inj]
    constructor
    · intro h
      have hq : ((w.seen i).bytes.toNat : ℚ) = (w.seen (i + 1)).bytes.toNat := by linarith
      exact Nat.cast_injective hq
    · intro h
      rw [h, sub_self, mul_zero]

namespace Kat

/-- `gbe0` at a time, with the bytes it has received. -/
def gbe0 (now : Int) (received : String) : Kernel :=
  .ofContents now [("/proc/stat", "cpu 1\n"), ("/proc/meminfo", ""),
    ("/proc/net/dev", "Inter-\n face\n gbe0: " ++ received ++ " 0 0 0 0 0 0 0 0 0 0 0 0 0 0 0\n")]

/-- `gbe0` receives 1000 bytes between two calls. -/
def twoCalls (now : Int) (i : ℕ) : Kernel := if i = 0 then gbe0 0 "500" else gbe0 now "1500"

def twoReports (now : Int) (bpsNow : ℚ) (i : ℕ) : Reported :=
  if i = 0 then ⟨0, 500, 0⟩ else ⟨now, 1500, bpsNow⟩

def watch (now : Int) (bpsNow : ℚ) (h : ∀ i ≤ 1,
    (Call.at (twoCalls now) i).reported .rx (utf8 "gbe0") = some (twoReports now bpsNow i)) :
    Watch .rx (utf8 "gbe0") 1 where
  reader := Reader.after (twoCalls now)
  call := Call.at (twoCalls now)
  seen := twoReports now bpsNow
  calls _ _ := rfl
  reported := h
  rises i hi := by
    obtain rfl : i = 0 := Nat.lt_one_iff.mp hi
    show (500 : UInt64) ≤ 1500
    decide

/-- Two calls, 2 s apart. -/
def spaced : Watch .rx (utf8 "gbe0") 1 := watch 2000000000 4000 (by decide +kernel)

/-- A scrape and a request of the dashboard, 10 ms apart. -/
def close : Watch .rx (utf8 "gbe0") 1 := watch 10000000 0 (by decide +kernel)

end Kat

/-- After 2 s the 1000 bytes are reported. -/
theorem traffic_reported_iff_spaced : Kat.spaced.bits = 8 * (1500 - 500) := by
  have hspaced : Spaced (Kat.spaced.seen 0) (Kat.spaced.seen 1) := by decide +kernel
  refine (traffic_reported_iff Kat.spaced).mpr fun i hi => ?_
  obtain rfl : i = 0 := Nat.lt_one_iff.mp hi
  exact .inl hspaced

/-- Within 10 ms `gbe0` receives 1000 bytes that no rate accounts for. -/
theorem traffic_lost :
    Kat.close.reader 0 = .new ∧ (Kat.close.seen 0).takenAt < (Kat.close.seen 1).takenAt ∧
      Kat.close.bits = 0 ∧
      Kat.close.bits ≠
        8 * ((Kat.close.seen 1).bytes.toNat - (Kat.close.seen 0).bytes.toNat : ℚ) := by
  have hbits : Kat.close.bits = 0 := by
    rw [Watch.bits, Finset.sum_range_one]
    exact zero_mul _
  refine ⟨rfl, by decide, hbits, ?_⟩
  rw [hbits]
  show (0 : ℚ) ≠ 8 * (((1500 : ℕ) : ℚ) - ((500 : ℕ) : ℚ))
  norm_num

end SmartSfp.Sysmon
