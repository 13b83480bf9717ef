import SmartSfp.Sysmon.Calls
import SmartSfp.Sysmon.Listing
import SmartSfp.Sysmon.Load

/-!
# Cores — whose sample a position of `prevCPUs` keeps

`/proc/stat` lists the CPUs that are online, and `readCPU` keeps a sample under the position of its
line.  A tracker knows what the reader does not: the last sample of each CPU, and the CPU whose
sample a position keeps.  While the CPUs stay where they were, the two agree.
-/

namespace SmartSfp.Sysmon

open Lib Text

/-- The last sample of each CPU and of all of them together, and the CPU of each position. -/
structure Tracker where
  last : Samples (Option ℕ) CPUStat
  slot : ℕ → Option ℕ

def Tracker.empty : Tracker := ⟨fun _ => none, fun _ => none⟩

def Tracker.see (t : Tracker) (l : Listing) : Tracker where
  last id := (l.find id).or (t.last id)
  slot i := (l.cpuAt i).or (t.slot i)

/-- Since a CPU was seen last no counter of it has decreased, and the sums fit 64 bits. -/
structure Tracker.Admits (t : Tracker) (l : Listing) : Prop where
  rises : ∀ id p c, t.last id = some p → l.find id = some c → p.Rises c
  fits : ∀ id c, l.find id = some c → c.jiffies < UInt64.size

/-- It suffices to look at the lines. -/
theorem Tracker.admits_of_lines {t : Tracker} {l : Listing}
    (hoverall : (∀ p ∈ t.last none, p.Rises l.overall) ∧ l.overall.jiffies < UInt64.size)
    (hcores : ∀ x ∈ l.cores, (∀ p ∈ t.last (some x.1), p.Rises x.2) ∧ x.2.jiffies < UInt64.size) :
    t.Admits l where
  rises id p c hp hc := by
    cases id with
    | none =>
      cases hc
      exact hoverall.1 p hp
    | some n => exact (hcores (n, c) (Listing.find_eq_some hc)).1 p hp
  fits id c hc := by
    cases id with
    | none =>
      cases hc
      exact hoverall.2
    | some n => exact (hcores (n, c) (Listing.find_eq_some hc)).2

/-- Every position of a sample has the CPU of that sample, or no CPU. -/
def Tracker.Steady (t : Tracker) (l : Listing) : Prop :=
  ∀ i n m, t.slot i = some n → l.cpuAt i = some m → m = n

/-- The reader keeps, at each position, the last sample of the CPU of that position. -/
structure Tracker.Agrees (t : Tracker) (r : Reader) : Prop where
  overall : r.prevCPU = t.last none
  kept : ∀ i, r.prevCPUs i = (t.slot i).bind fun n => t.last (some n)
  inj : ∀ i j n, t.slot i = some n → t.slot j = some n → i = j
  /-- The positions in use are the first ones. -/
  closed : ∀ i j, i ≤ j → (t.slot j).isSome → (t.slot i).isSome
  covers : ∀ n c, t.last (some n) = some c → ∃ i, t.slot i = some n

theorem Tracker.agrees_empty : Tracker.empty.Agrees .new where
  overall := rfl
  kept _ := rfl
  inj i j n h := by cases h
  closed i j _ h := by cases h
  covers n c h := by cases h

namespace Tracker

variable {t : Tracker} {l : Listing} {r r' : Reader} {i j n : ℕ}

/-- A position has the CPU that is listed there, or keeps its CPU. -/
theorem slot_see_iff : (t.see l).slot i = some n ↔
    l.cpuAt i = some n ∨ l.cpuAt i = none ∧ t.slot i = some n := Option.or_eq_some_iff

theorem slot_see_of_cpuAt (h : l.cpuAt i = some n) : (t.see l).slot i = some n :=
  slot_see_iff.mpr (.inl h)

theorem slot_see_of_none (h : l.cpuAt i = none) : (t.see l).slot i = t.slot i := by
  show (l.cpuAt i).or (t.slot i) = t.slot i
  rw [h, Option.none_or]

/-- A CPU that has a position is listed there or not at all. -/
theorem Agrees.cpuAt_of_slot (h : t.Agrees r) (hsteady : t.Steady l) (hi : t.slot i = some n)
    (hj : l.cpuAt j = some n) : i = j := by
  by_cases hji : j ≤ i
  · -- position `j` is in use, so its CPU is the listed one
    obtain ⟨m, hm⟩ := Option.isSome_iff_exists.mp (h.closed j i hji (by rw [hi]; rfl))
    have hsame := hsteady j m n hm hj
    exact h.inj i j n hi (hsame ▸ hm)
  · -- position `i` comes before a listed one, so it is listed too
    have hlisted : (l.cpuAt i).isSome := by
      have hlt := l.cpuAt_isSome_iff.mp (by rw [hj]; rfl)
      exact l.cpuAt_isSome_iff.mpr (by omega)
    obtain ⟨m, hm⟩ := Option.isSome_iff_exists.mp hlisted
    have hsame := hsteady i n m hi hm
    exact l.cpuAt_inj (hsame ▸ hm) hj

/-- The sample kept at the position of a line is the last one of its CPU. -/
theorem Agrees.kept_of_cpuAt (h : t.Agrees r) (hsteady : t.Steady l) (hi : l.cpuAt i = some n) :
    r.prevCPUs i = t.last (some n) := by
  rw [h.kept]
  cases hslot : t.slot i with
  | some m =>
    rw [← hsteady i m n hslot hi]
    rfl
  | none =>
    cases hlast : t.last (some n) with
    | none => rfl
    | some c =>
      -- a CPU that was seen has a position, which would be this one
      obtain ⟨j, hj⟩ := h.covers n c hlast
      rw [h.cpuAt_of_slot hsteady hj hi, hslot] at hj
      cases hj

/-- A call that lists the CPUs where they were leaves the reader in agreement. -/
theorem Agrees.see (h : t.Agrees r) (hsteady : t.Steady l) (hoverall : r'.prevCPU = some l.overall)
    (hcores : ∀ i, r'.prevCPUs i = (l.cores.map Prod.snd)[i]?.or (r.prevCPUs i)) :
    (t.see l).Agrees r' where
  overall := by
    show r'.prevCPU = (l.find none).or (t.last none)
    rw [hoverall, Listing.find, Option.some_or]
  kept i := by
    rw [hcores, List.getElem?_map]
    cases hi : l.cores[i]? with
    | some x =>
      have hcpu : l.cpuAt i = some x.1 := by rw [Listing.cpuAt, hi, Option.map_some]
      rw [slot_see_of_cpuAt hcpu, Option.map_some, Option.some_or, Option.bind_some]
      show _ = (l.find (some x.1)).or _
      rw [Listing.find_of_getElem? hi, Option.some_or]
    | none =>
      have hcpu : l.cpuAt i = none := by rw [Listing.cpuAt, hi, Option.map_none]
      rw [slot_see_of_none hcpu, Option.map_none, Option.none_or, h.kept]
      cases hslot : t.slot i with
      | none => rfl
      | some n =>
        -- the CPU of a position that is not listed is not listed elsewhere
        have hnone : l.find (some n) = none := by
          refine Listing.find_none fun j hj => ?_
          rw [← h.cpuAt_of_slot hsteady hslot hj, hcpu] at hj
          cases hj
        show _ = (l.find (some n)).or _
        rw [hnone, Option.none_or, Option.bind_some]
  inj i j n hi hj := by
    rcases slot_see_iff.mp hi with hi | ⟨-, hi⟩
    · rcases slot_see_iff.mp hj with hj | ⟨-, hj⟩
      · exact l.cpuAt_inj hi hj
      · exact (h.cpuAt_of_slot hsteady hj hi).symm
    · rcases slot_see_iff.mp hj with hj | ⟨-, hj⟩
      · exact h.cpuAt_of_slot hsteady hi hj
      · exact h.inj i j n hi hj
  closed i j hij hj := by
    cases hcpui : l.cpuAt i with
    | some a =>
      rw [slot_see_of_cpuAt hcpui]
      rfl
    | none =>
      have hcpuj : l.cpuAt j = none := by
        rw [← Option.not_isSome_iff_eq_none, l.cpuAt_isSome_iff] at hcpui ⊢
        omega
      rw [slot_see_of_none hcpui]
      rw [slot_see_of_none hcpuj] at hj
      exact h.closed i j hij hj
  covers n c hc := by
    by_cases hlisted : ∃ i, l.cpuAt i = some n
    · obtain ⟨i, hi⟩ := hlisted
      exact ⟨i, slot_see_of_cpuAt hi⟩
    · have hnone : l.find (some n) = none :=
        Listing.find_none fun i hi => hlisted ⟨i, hi⟩
      have hlast : t.last (some n) = some c := by
        have hsee : (l.find (some n)).or (t.last (some n)) = some c := hc
        rwa [hnone, Option.none_or] at hsee
      obtain ⟨i, hi⟩ := h.covers n c hlast
      refine ⟨i, slot_see_iff.mpr ?_⟩
      cases hcpu : l.cpuAt i with
      | some m => exact .inl (by rw [hsteady i n m hi hcpu])
      | none => exact .inr ⟨rfl, hi⟩

end Tracker

/-! ## Runs of calls -/

/-- Whether a call succeeds or not, it stores what it finds in `/proc/stat`. -/
theorem Reader.Calls.cores {r r' : Reader} {c : Call} {overall : CPUStat} {perCore : List CPUStat}
    (h : r.Calls c r') (hstat : readStat c.kernel.files = .ok (overall, perCore)) :
    r'.prevCPU = some overall ∧ (∀ i, r'.prevCPUs i = perCore[i]?.or (r.prevCPUs i)) ∧
      ∀ snap, c.result = .ok snap → snap.cpu = (r.storeCPU overall perCore).1 := by
  cases h.cases with
  | unread hunread =>
    rw [hunread] at hstat
    cases hstat
  | broken hbroken _ hresult hafter =>
    rw [hbroken] at hstat
    cases hstat
    refine ⟨by rw [hafter]; rfl, fun i => ?_, fun snap hok => ?_⟩
    · rw [hafter]
      exact readCores_kept perCore r.prevCPUs i
    · rw [hok] at hresult
      cases hresult
  | done hdone _ _ hresult _ hcpu _ _ _ hcpu' hcpus' =>
    rw [hdone] at hstat
    cases hstat
    refine ⟨hcpu', fun i => ?_, fun snap hok => ?_⟩
    · rw [hcpus']
      exact readCores_kept perCore r.prevCPUs i
    · rw [hresult] at hok
      cases hok
      exact hcpu

structure Tracked where
  reader : Reader
  tracker : Tracker

def Tracked.start : Tracked := ⟨.new, .empty⟩

/-- A call, and what `/proc/stat` lists in it. -/
def Tracked.Polls (s : Tracked) (x : Call × Listing) (s' : Tracked) : Prop :=
  s.reader.Calls x.1 s'.reader ∧ x.1.kernel.Lists x.2 ∧ s.tracker.Admits x.2 ∧
    s'.tracker = s.tracker.see x.2

def Tracked.Steady (s : Tracked) (x : Call × Listing) : Prop := s.tracker.Steady x.2

/-- Each percentage is the one between the last two samples of one CPU. -/
def TruePercentages (t : Tracker) (l : Listing) (cpu : CPUInfo) : Prop :=
  Sound (t.last none) l.overall cpu.busyPct ∧
    List.Forall₂ (fun x pct => Sound (t.last (some x.1)) x.2 pct) l.cores cpu.perCore

theorem agrees_of_run {xs : List (Call × Listing)} {s : Tracked}
    (h : Run (When Tracked.Steady Tracked.Polls) .start xs s) : s.tracker.Agrees s.reader := by
  induction h with
  | nil => exact Tracker.agrees_empty
  | snoc _ hlast ih =>
    obtain ⟨hsteady, hcalls, hlists, -, htracker⟩ := hlast
    obtain ⟨hoverall, hcores, -⟩ := hcalls.cores hlists.readStat
    rw [htracker]
    exact ih.see hsteady hoverall hcores

/-- The cores are reported against the last samples of their CPUs. -/
theorem Tracker.Agrees.report {t : Tracker} {r : Reader} {l : Listing} (h : t.Agrees r)
    (hsteady : t.Steady l) :
    (readCores (l.cores.map Prod.snd) r.prevCPUs).1 =
      l.cores.map fun x => coreBusy (t.last (some x.1)) x.2 := by
  rw [readCores_report]
  apply List.ext_getElem?
  intro i
  rw [List.getElem?_map, List.getElem?_zipIdx, List.getElem?_map, List.getElem?_map]
  cases hi : l.cores[i]? with
  | none => rfl
  | some x =>
    have hcpu : l.cpuAt i = some x.1 := by rw [Listing.cpuAt, hi, Option.map_some]
    simp only [Option.map_some, Nat.zero_add]
    rw [h.kept_of_cpuAt hsteady hcpu]

/-- In a run in which a position that has been in use always lists the same CPU, every snapshot
shows true percentages. -/
theorem cpu_percentages_true {xs : List (Call × Listing)} {s s' : Tracked} {c : Call} {l : Listing}
    {snap : Snapshot} (hrun : Run (When Tracked.Steady Tracked.Polls) .start xs s)
    (hlast : When Tracked.Steady Tracked.Polls s (c, l) s') (hok : c.result = .ok snap) :
    TruePercentages s.tracker l snap.cpu := by
  have hagrees := agrees_of_run hrun
  obtain ⟨hsteady, hcalls, hlists, hadmits, -⟩ := hlast
  obtain ⟨-, -, hreport⟩ := hcalls.cores hlists.readStat
  rw [hreport snap hok]
  constructor
  · show Sound _ _ (coreBusy s.reader.prevCPU l.overall)
    rw [hagrees.overall]
    exact coreBusy_sound (fun p hp => hadmits.rises none p _ hp rfl) (hadmits.fits none _ rfl)
  · show List.Forall₂ _ l.cores (readCores (l.cores.map Prod.snd) s.reader.prevCPUs).1
    rw [hagrees.report hsteady, List.forall₂_map_right_iff, List.forall₂_same]
    intro x hx
    obtain ⟨i, hi⟩ := List.mem_iff_getElem?.mp hx
    have hfind := l.find_of_getElem? hi
    exact coreBusy_sound (fun p hp => hadmits.rises _ p _ hp hfind) (hadmits.fits _ _ hfind)

namespace Kat

def cpu (user idle : UInt64) : CPUStat := ⟨user, 0, 0, idle, 0, 0, 0, 0⟩

/-- CPUs 0, 1 and 2 are online. -/
def three : Listing := ⟨cpu 20 280, [(0, cpu 10 90), (1, cpu 10 90), (2, cpu 0 100)], by decide⟩

/-- CPU 2 is offline. -/
def zeroOne : Listing := ⟨cpu 70 430, [(0, cpu 60 140), (1, cpu 10 90)], by decide⟩

/-- CPU 1 is offline. -/
def zeroTwo : Listing := ⟨cpu 70 430, [(0, cpu 60 140), (2, cpu 0 200)], by decide⟩

def statOf (content : String) : Kernel :=
  .ofContents 0 [("/proc/stat", content), ("/proc/meminfo", ""), ("/proc/net/dev", "")]

def threeStat : Kernel := statOf
  ("cpu  20 0 0 280 0 0 0 0\ncpu0 10 0 0 90 0 0 0 0\ncpu1 10 0 0 90 0 0 0 0\n" ++
    "cpu2 0 0 0 100 0 0 0 0\nintr 0\n")

def zeroOneStat : Kernel := statOf
  "cpu  70 0 0 430 0 0 0 0\ncpu0 60 0 0 140 0 0 0 0\ncpu1 10 0 0 90 0 0 0 0\nintr 0\n"

def zeroTwoStat : Kernel := statOf
  "cpu  70 0 0 430 0 0 0 0\ncpu0 60 0 0 140 0 0 0 0\ncpu2 0 0 0 200 0 0 0 0\nintr 0\n"

/-- The state after a first call with three CPUs. -/
def afterThree : Tracked := ⟨(Reader.new.snapshot threeStat).2, Tracker.empty.see three⟩

/-- The second call. -/
def second (k : Kernel) : Call := ⟨k, (afterThree.reader.snapshot k).1⟩

def afterBoth (k : Kernel) (l : Listing) : Tracked :=
  ⟨(afterThree.reader.snapshot k).2, afterThree.tracker.see l⟩

theorem lists_three : threeStat.Lists three :=
  ⟨_, utf8 "cpu  20 0 0 280 0 0 0 0",
    [utf8 "cpu0 10 0 0 90 0 0 0 0", utf8 "cpu1 10 0 0 90 0 0 0 0", utf8 "cpu2 0 0 0 100 0 0 0 0"],
    [utf8 "intr 0"], rfl, by decide +kernel, by decide +kernel, by decide +kernel,
    by decide +kernel⟩

theorem lists_zeroOne : zeroOneStat.Lists zeroOne :=
  ⟨_, utf8 "cpu  70 0 0 430 0 0 0 0",
    [utf8 "cpu0 60 0 0 140 0 0 0 0", utf8 "cpu1 10 0 0 90 0 0 0 0"], [utf8 "intr 0"], rfl,
    by decide +kernel, by decide +kernel, by decide +kernel, by decide +kernel⟩

theorem lists_zeroTwo : zeroTwoStat.Lists zeroTwo :=
  ⟨_, utf8 "cpu  70 0 0 430 0 0 0 0",
    [utf8 "cpu0 60 0 0 140 0 0 0 0", utf8 "cpu2 0 0 0 200 0 0 0 0"], [utf8 "intr 0"], rfl,
    by decide +kernel, by decide +kernel, by decide +kernel, by decide +kernel⟩

theorem polls_three :
    Tracked.start.Polls (⟨threeStat, (Reader.new.snapshot threeStat).1⟩, three) afterThree :=
  ⟨rfl, lists_three, Tracker.admits_of_lines (by decide) (by decide), rfl⟩

theorem steady_three (c : Call) : Tracked.start.Steady (c, three) := by
  intro i n m hslot
  cases hslot

end Kat

/-- CPU 2 goes offline: the others keep their positions. -/
theorem cpu_percentages_true_offline : ∃ snap,
    (Kat.second Kat.zeroOneStat).result = .ok snap ∧ snap.cpu.perCore = [50, 0] ∧
      TruePercentages Kat.afterThree.tracker Kat.zeroOne snap.cpu := by
  have hvalue : (Kat.second Kat.zeroOneStat).result.toOption.map (fun snap => snap.cpu.perCore) =
      some [50, 0] := by decide +kernel
  have hsteady : Kat.afterThree.Steady (Kat.second Kat.zeroOneStat, Kat.zeroOne) := by
    intro i n m hslot hcpu
    match i with
    | 0 => cases hslot; cases hcpu; rfl
    | 1 => cases hslot; cases hcpu; rfl
    | i + 2 => cases hcpu
  have hpolls : Kat.afterThree.Polls (Kat.second Kat.zeroOneStat, Kat.zeroOne)
      (Kat.afterBoth Kat.zeroOneStat Kat.zeroOne) :=
    ⟨rfl, Kat.lists_zeroOne, Tracker.admits_of_lines (by decide) (by decide), rfl⟩
  cases hresult : (Kat.second Kat.zeroOneStat).result with
  | error e =>
    rw [hresult] at hvalue
    cases hvalue
  | ok snap =>
    rw [hresult] at hvalue
    exact ⟨snap, rfl, Option.some.inj hvalue, cpu_percentages_true
      (.single ⟨Kat.steady_three _, Kat.polls_three⟩) ⟨hsteady, hpolls⟩ hresult⟩

/-- CPU 1 goes offline: the line of CPU 2, which was idle all the time, is compared with the sample
of CPU 1, and the difference of the busy counters wraps. -/
theorem cpu_percentages_mixed : ∃ snap,
    Run Tracked.Polls .start [(⟨Kat.threeStat, (Reader.new.snapshot Kat.threeStat).1⟩, Kat.three),
      (Kat.second Kat.zeroTwoStat, Kat.zeroTwo)] (Kat.afterBoth Kat.zeroTwoStat Kat.zeroTwo) ∧
    (Kat.second Kat.zeroTwoStat).result = .ok snap ∧ snap.cpu.perCore = [50, 100] ∧
    trueBusy (Kat.afterThree.tracker.last (some 2)) (Kat.cpu 0 200) = 0 ∧
    ¬TruePercentages Kat.afterThree.tracker Kat.zeroTwo snap.cpu := by
  have hvalue : (Kat.second Kat.zeroTwoStat).result.toOption.map (fun snap => snap.cpu.perCore) =
      some [50, 100] := by decide +kernel
  have hpolls : Kat.afterThree.Polls (Kat.second Kat.zeroTwoStat, Kat.zeroTwo)
      (Kat.afterBoth Kat.zeroTwoStat Kat.zeroTwo) :=
    ⟨rfl, Kat.lists_zeroTwo, Tracker.admits_of_lines (by decide) (by decide), rfl⟩
  have htrue : trueBusy (Kat.afterThree.tracker.last (some 2)) (Kat.cpu 0 200) = 0 := by
    decide +kernel
  cases hresult : (Kat.second Kat.zeroTwoStat).result with
  | error e =>
    rw [hresult] at hvalue
    cases hvalue
  | ok snap =>
    rw [hresult] at hvalue
    have hcores : snap.cpu.perCore = [50, 100] := Option.some.inj hvalue
    refine ⟨snap, .cons Kat.polls_three (.single hpolls), rfl, hcores, htrue, fun h => ?_⟩
    obtain ⟨-, hcpus⟩ := h
    rw [hcores] at hcpus
    cases hcpus with
    | cons _ hrest =>
      cases hrest with
      | cons hsecond _ =>
        have hpct : (100 : ℚ) = 0 := hsecond.eq.trans htrue
        norm_num at hpct

end SmartSfp.Sysmon
