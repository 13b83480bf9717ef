import SmartSfp.Sysmon.Reader

/-!
# Baselines — which readers report the same

Two readers report the same from here on if their samples are alike: the counters of a CPU by their
two sums, the samples of interfaces and processes exactly.  The cached time of boot only shows in
the start times of processes, so these are left out of the comparison.
-/

namespace SmartSfp.Sysmon

open Lib Text

/-- Counters `pctBusy` does not tell apart. -/
structure SameLoad (c c' : CPUStat) : Prop where
  total_eq : c.total = c'.total
  busy_eq : c.busy = c'.busy

theorem SameLoad.refl (c : CPUStat) : SameLoad c c := ⟨rfl, rfl⟩

/-- Readers that no later call tells apart. -/
structure Reader.Same (r r' : Reader) : Prop where
  prevCPU : Option.Rel SameLoad r.prevCPU r'.prevCPU
  prevCPUs : SameSamples SameLoad r.prevCPUs r'.prevCPUs
  prevNet : SameSamples Eq r.prevNet r'.prevNet
  prevProc : SameSamples Eq r.prevProc r'.prevProc

theorem Reader.Same.refl (r : Reader) : r.Same r where
  prevCPU := by
    cases r.prevCPU with
    | none => exact .none
    | some c => exact .some (SameLoad.refl c)
  prevCPUs := SameSamples.refl SameLoad.refl r.prevCPUs
  prevNet := SameSamples.refl (fun _ => rfl) r.prevNet
  prevProc := SameSamples.refl (fun _ => rfl) r.prevProc

theorem SameLoad.trans (a b c : CPUStat) (h : SameLoad a b) (h' : SameLoad b c) : SameLoad a c :=
  ⟨h.total_eq.trans h'.total_eq, h.busy_eq.trans h'.busy_eq⟩

theorem Reader.Same.trans {a b c : Reader} (h : a.Same b) (h' : b.Same c) : a.Same c where
  prevCPU := rel_trans SameLoad.trans h.prevCPU h'.prevCPU
  prevCPUs := SameSamples.trans SameLoad.trans h.prevCPUs h'.prevCPUs
  prevNet := SameSamples.trans (fun _ _ _ => Eq.trans) h.prevNet h'.prevNet
  prevProc := SameSamples.trans (fun _ _ _ => Eq.trans) h.prevProc h'.prevProc

theorem coreBusy_same {prev prev' : Option CPUStat} (h : Option.Rel SameLoad prev prev')
    (st : CPUStat) : coreBusy prev st = coreBusy prev' st := by
  cases h with
  | none => rfl
  | some hload =>
    show pctBusy _ st = pctBusy _ st
    unfold pctBusy
    rw [hload.total_eq, hload.busy_eq]

theorem eq_of_rel_eq {α : Type} {a b : Option α} (h : Option.Rel Eq a b) : a = b := by
  cases h with
  | none => rfl
  | some h => rw [h]

/-! ## Readers that are the same report the same -/

variable {r r' : Reader}

theorem Reader.Same.storeCPU (h : r.Same r') (overall : CPUStat) (perCore : List CPUStat) :
    (r.storeCPU overall perCore).1 = (r'.storeCPU overall perCore).1 ∧
      (r.storeCPU overall perCore).2.Same (r'.storeCPU overall perCore).2 := by
  have hcores := h.prevCPUs.sampleAll SameLoad.refl coreSlot (fun prev x => coreBusy prev x.1)
    (fun x _ _ hab => coreBusy_same hab x.1) perCore.zipIdx
  have hoverall := coreBusy_same h.prevCPU overall
  constructor
  · simp only [Reader.storeCPU, readCores]
    rw [hoverall, hcores.1]
  · exact ⟨.some (SameLoad.refl overall), hcores.2, h.prevNet, h.prevProc⟩

theorem Reader.Same.storeNet (h : r.Same r') (f : Files) (now : Int) (stats : Samples Text RawNet) :
    (r.storeNet f now stats).1 = (r'.storeNet f now stats).1 ∧
      (r.storeNet f now stats).2.Same (r'.storeNet f now stats).2 := by
  have hnets := h.prevNet.sampleAll (fun _ => rfl) (netSlot now) (netInfo f now)
    (fun _ _ _ hab => by rw [eq_of_rel_eq hab]) (netReadings stats)
  exact ⟨hnets.1, h.prevCPU, h.prevCPUs, hnets.2, h.prevProc⟩

/-- A process without what depends on the time of boot. -/
def ProcessInfo.withoutStart (p : ProcessInfo) : ProcessInfo :=
  { p with startUnixS := 0, uptimeS := 0 }

theorem addBinary_withoutStart (f : Files) (pid : Int) (info : ProcessInfo) :
    (addBinary f pid info).withoutStart = addBinary f pid info.withoutStart := by
  unfold addBinary
  cases f.readlink (procPath pid "exe") with
  | none => rfl
  | some exe =>
    dsimp only
    cases f.stat exe with
    | none => rfl
    | some fi => rfl

theorem Reader.Same.readProcStat (h : r.Same r') (k : Kernel) (name : Text) (pid : Int)
    (info : ProcessInfo) :
    (r.readProcStat k name pid info).1.withoutStart =
        (r'.readProcStat k name pid info).1.withoutStart ∧
      (r.readProcStat k name pid info).2.Same (r'.readProcStat k name pid info).2 := by
  unfold Reader.readProcStat
  cases parseProcPidStat (k.process name) pid with
  | none => exact ⟨rfl, h⟩
  | some st =>
    have hprev := eq_of_rel_eq (h.prevProc (procKey pid))
    constructor
    · dsimp only [ProcessInfo.withoutStart]
      rw [hprev]
    · exact ⟨h.prevCPU, h.prevCPUs, h.prevNet, h.prevProc.update rfl⟩

theorem Reader.Same.readOneProcess (h : r.Same r') (k : Kernel) (name : Text) :
    (r.readOneProcess k name).1.withoutStart = (r'.readOneProcess k name).1.withoutStart ∧
      (r.readOneProcess k name).2.Same (r'.readOneProcess k name).2 := by
  unfold Reader.readOneProcess
  cases findPIDByComm (k.process name) name with
  | none => exact ⟨rfl, h⟩
  | some pid =>
    have hstat := h.readProcStat k name pid
      { ProcessInfo.named name with pid := pid, running := true }
    constructor
    · show (addBinary _ pid _).withoutStart = (addBinary _ pid _).withoutStart
      rw [addBinary_withoutStart, addBinary_withoutStart, hstat.1]
    · exact hstat.2

theorem Reader.Same.readEach (h : r.Same r') (k : Kernel) (names : List Text) :
    (Reader.readEach k names r).1.map ProcessInfo.withoutStart =
        (Reader.readEach k names r').1.map ProcessInfo.withoutStart ∧
      (Reader.readEach k names r).2.Same (Reader.readEach k names r').2 := by
  induction names generalizing r r' with
  | nil => exact ⟨rfl, h⟩
  | cons name names ih =>
    have hone := h.readOneProcess k name
    have hrest := ih hone.2
    simp only [Reader.readEach, List.map_cons]
    rw [hone.1, hrest.1]
    exact ⟨rfl, hrest.2⟩

/-- A snapshot without what depends on the time of boot. -/
def Snapshot.withoutStart (s : Snapshot) : Snapshot :=
  { s with processes := s.processes.map ProcessInfo.withoutStart }

theorem Reader.Same.snapshot (h : r.Same r') (k : Kernel) :
    (r.snapshot k).1.map Snapshot.withoutStart = (r'.snapshot k).1.map Snapshot.withoutStart ∧
      (r.snapshot k).2.Same (r'.snapshot k).2 := by
  unfold Reader.snapshot Reader.readCPU
  cases readStat k.files with
  | error e => exact ⟨rfl, h⟩
  | ok stat =>
    obtain ⟨hcpu, h₁⟩ := h.storeCPU stat.1 stat.2
    dsimp only [bind, Except.bind, pure, Except.pure]
    cases readMemory k.files with
    | error e => exact ⟨rfl, h₁⟩
    | ok memory =>
      dsimp only
      unfold Reader.readNet
      cases parseProcNetDev k.files with
      | error e => exact ⟨rfl, h₁⟩
      | ok stats =>
        obtain ⟨hnet, h₂⟩ := h₁.storeNet k.files k.now stats
        obtain ⟨hproc, h₃⟩ := h₂.readEach k watchedProcesses
        dsimp only [bind, Except.bind, pure, Except.pure]
        constructor
        · simp only [Except.map, Snapshot.withoutStart, Reader.readProcesses]
          rw [hcpu, hnet, hproc]
        · exact ⟨h₃.prevCPU, h₃.prevCPUs, h₃.prevNet, h₃.prevProc⟩

/-! ## Calls that leave a reader the same -/

/-- The sample a lookup of a watched process would store. -/
def procStored (k : Kernel) (name : Text) : Option (Text × ProcSample) := do
  let pid ← findPIDByComm (k.process name) name
  let st ← parseProcPidStat (k.process name) pid
  return (procKey pid, ⟨k.now, st.utime + st.stime⟩)

/-- Every sample a call would store here is kept already. -/
def Reader.StoresNothing (r : Reader) (k : Kernel) : Prop :=
  ∀ overall perCore, readStat k.files = .ok (overall, perCore) →
    Option.Rel SameLoad r.prevCPU (some overall) ∧
    (∀ x ∈ perCore.zipIdx, Option.Rel SameLoad (r.prevCPUs x.2) (some x.1)) ∧
    ((readMemory k.files).isOk = true → ∀ stats, parseProcNetDev k.files = .ok stats →
      (∀ x ∈ netReadings stats, ∀ key s, netSlot k.now x = some (key, s) → r.prevNet key = some s) ∧
      ∀ name ∈ watchedProcesses, ∀ key s, procStored k name = some (key, s) →
        r.prevProc key = some s)

theorem Reader.Same.readEach_right (h : r.Same r') {k : Kernel} {names : List Text}
    (hkept : ∀ name ∈ names, ∀ key s, procStored k name = some (key, s) →
      r.prevProc key = some s) : r.Same (Reader.readEach k names r').2 := by
  induction names generalizing r' with
  | nil => exact h
  | cons name names ih =>
    apply ih _ fun n hn => hkept n (List.mem_cons_of_mem name hn)
    have hname := hkept name List.mem_cons_self
    unfold Reader.readOneProcess
    cases hpid : findPIDByComm (k.process name) name with
    | none => exact h
    | some pid =>
      dsimp only
      unfold Reader.readProcStat
      cases hstat : parseProcPidStat (k.process name) pid with
      | none => exact h
      | some st =>
        have hstored : procStored k name = some (procKey pid, ⟨k.now, st.utime + st.stime⟩) := by
          simp [procStored, hpid, hstat]
        have hsample := hname _ _ hstored
        refine ⟨h.prevCPU, h.prevCPUs, h.prevNet, h.prevProc.update_right ?_⟩
        rw [hsample]
        exact .some rfl

/-- A call that fails before it stores anything, or stores what is kept already. -/
theorem Reader.StoresNothing.same {k : Kernel} (h : r.StoresNothing k) :
    r.Same (r.snapshot k).2 := by
  unfold Reader.snapshot Reader.readCPU
  cases hstat : readStat k.files with
  | error e => exact Reader.Same.refl r
  | ok stat =>
    obtain ⟨hoverall, hcores, hlater⟩ := h stat.1 stat.2 hstat
    -- the counters of the CPU are stored even if a later source fails
    have hcpus : SameSamples SameLoad r.prevCPUs (readCores stat.2 r.prevCPUs).2 := by
      apply (SameSamples.refl SameLoad.refl r.prevCPUs).of_kept coreSlot
      intro x hx key s hslot
      cases hslot
      exact hcores x hx
    have h₁ : r.Same (r.storeCPU stat.1 stat.2).2 :=
      ⟨hoverall, hcpus, (Reader.Same.refl r).prevNet, (Reader.Same.refl r).prevProc⟩
    dsimp only [bind, Except.bind, pure, Except.pure]
    cases hmemory : readMemory k.files with
    | error e => exact h₁
    | ok memory =>
      dsimp only
      unfold Reader.readNet
      cases hnet : parseProcNetDev k.files with
      | error e => exact h₁
      | ok stats =>
        rw [hmemory] at hlater
        obtain ⟨hnets, hprocs⟩ := hlater rfl stats hnet
        have hnetSame : SameSamples Eq r.prevNet
            ((r.storeCPU stat.1 stat.2).2.storeNet k.files k.now stats).2.prevNet := by
          apply h₁.prevNet.of_kept (netSlot k.now)
          intro x hx key s hslot
          rw [hnets x hx key s hslot]
          exact .some rfl
        have h₂ : r.Same ((r.storeCPU stat.1 stat.2).2.storeNet k.files k.now stats).2 :=
          ⟨h₁.prevCPU, h₁.prevCPUs, hnetSame, h₁.prevProc⟩
        have h₃ := h₂.readEach_right hprocs
        exact ⟨h₃.prevCPU, h₃.prevCPUs, h₃.prevNet, h₃.prevProc⟩

end SmartSfp.Sysmon
