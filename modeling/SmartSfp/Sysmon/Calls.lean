import SmartSfp.Lib.Run
import SmartSfp.Sysmon.Reader

/-!
# Calls — everything a `Snapshot` call does to its reader

A call stops before it stores anything, or after the samples of the CPU, or it succeeds and stores
all of them.  Each later result on the reader argues from these three cases.
-/

namespace SmartSfp.Sysmon

open Lib Text

/-- One call: what it finds and what it returns. -/
structure Call where
  kernel : Kernel
  result : Except String Snapshot

/-- The reader before and after a call. -/
def Reader.Calls (r : Reader) (c : Call) (r' : Reader) : Prop :=
  r.snapshot c.kernel = (c.result, r')

theorem Call.not_ok {c : Call} (h : c.result.isOk = false) : c.result.toOption = none := by
  cases hresult : c.result with
  | ok snap =>
    rw [hresult] at h
    cases h
  | error e => rfl

/-- The sources a call needs behind `/proc/stat`. -/
def Kernel.Readable (k : Kernel) : Prop :=
  (readMemory k.files).isOk = true ∧ (parseProcNetDev k.files).isOk = true

/-! ## What the readers of the module leave alone -/

theorem Reader.readProcStat_frame (r : Reader) (k : Kernel) (name : Text) (pid : Int)
    (info : ProcessInfo) :
    (r.readProcStat k name pid info).2.prevCPU = r.prevCPU ∧
      (r.readProcStat k name pid info).2.prevCPUs = r.prevCPUs ∧
      (r.readProcStat k name pid info).2.prevNet = r.prevNet := by
  unfold readProcStat
  cases parseProcPidStat (k.process name) pid with
  | none => exact ⟨rfl, rfl, rfl⟩
  | some st => exact ⟨rfl, rfl, rfl⟩

theorem Reader.readOneProcess_frame (r : Reader) (k : Kernel) (name : Text) :
    (r.readOneProcess k name).2.prevCPU = r.prevCPU ∧
      (r.readOneProcess k name).2.prevCPUs = r.prevCPUs ∧
      (r.readOneProcess k name).2.prevNet = r.prevNet := by
  unfold readOneProcess
  cases findPIDByComm (k.process name) name with
  | none => exact ⟨rfl, rfl, rfl⟩
  | some pid => exact r.readProcStat_frame k name pid _

/-- The lookups of processes store samples of processes only. -/
theorem Reader.readEach_frame (k : Kernel) (names : List Text) (r : Reader) :
    (readEach k names r).2.prevCPU = r.prevCPU ∧ (readEach k names r).2.prevCPUs = r.prevCPUs ∧
      (readEach k names r).2.prevNet = r.prevNet := by
  induction names generalizing r with
  | nil => exact ⟨rfl, rfl, rfl⟩
  | cons name names ih =>
    obtain ⟨hcpu, hcpus, hnet⟩ := ih (r.readOneProcess k name).2
    obtain ⟨hcpu', hcpus', hnet'⟩ := r.readOneProcess_frame k name
    exact ⟨hcpu.trans hcpu', hcpus.trans hcpus', hnet.trans hnet'⟩

/-! ## The cores -/

theorem coreSlot_eq (x : CPUStat × Nat) : coreSlot x = some (x.2, x.1) := rfl

theorem nodup_positions (perCore : List CPUStat) : (perCore.zipIdx.map Prod.snd).Nodup := by
  rw [List.zipIdx_map_snd]
  exact List.nodup_range'

/-- A core is reported with the sample of its position. -/
theorem readCores_report (perCore : List CPUStat) (prevCPUs : Samples Nat CPUStat) :
    (readCores perCore prevCPUs).1 = perCore.zipIdx.map fun x => coreBusy (prevCPUs x.2) x.1 :=
  sampleAll_reports coreSlot_eq (nodup_positions perCore) prevCPUs

/-- Afterwards the positions of the list hold its samples, and the other positions what they
held. -/
theorem readCores_kept (perCore : List CPUStat) (prevCPUs : Samples Nat CPUStat) (i : Nat) :
    (readCores perCore prevCPUs).2 i = perCore[i]?.or (prevCPUs i) := by
  cases hi : perCore[i]? with
  | some st =>
    have hmem : (st, i) ∈ perCore.zipIdx := List.mem_zipIdx_iff_getElem?.mpr hi
    exact sampleAll_of_mem coreSlot_eq (nodup_positions perCore) hmem prevCPUs
  | none =>
    have hnot : i ∉ perCore.zipIdx.map Prod.snd := by
      intro hmem
      obtain ⟨x, hx, rfl⟩ := List.mem_map.mp hmem
      rw [List.mem_zipIdx_iff_getElem?, hi] at hx
      cases hx
    exact sampleAll_of_not_mem coreSlot_eq hnot prevCPUs

/-! ## The three cases -/

inductive Reader.Called (r : Reader) (c : Call) (r' : Reader) : Prop where
  | unread {e : String} (hstat : readStat c.kernel.files = .error e)
      (hresult : c.result.isOk = false) (hafter : r' = r)
  | broken {overall : CPUStat} {perCore : List CPUStat}
      (hstat : readStat c.kernel.files = .ok (overall, perCore))
      (hbroken : ¬c.kernel.Readable) (hresult : c.result.isOk = false)
      (hafter : r' = (r.storeCPU overall perCore).2)
  | done {overall : CPUStat} {perCore : List CPUStat} {stats : Samples Text RawNet}
      {snap : Snapshot} {r₀ : Reader}
      (hstat : readStat c.kernel.files = .ok (overall, perCore)) (hreadable : c.kernel.Readable)
      (hnet : parseProcNetDev c.kernel.files = .ok stats) (hresult : c.result = .ok snap)
      (htakenAt : snap.takenAt = c.kernel.now)
      (hcpu : snap.cpu = (r.storeCPU overall perCore).1)
      (hinterfaces : snap.interfaces = (r.storeNet c.kernel.files c.kernel.now stats).1)
      (hprocesses : snap.processes = (r₀.readProcesses c.kernel).1)
      (hprevProc : r₀.prevProc = r.prevProc)
      (hcpu' : r'.prevCPU = some overall)
      (hcpus' : r'.prevCPUs = (readCores perCore r.prevCPUs).2)
      (hnet' : r'.prevNet = (r.storeNet c.kernel.files c.kernel.now stats).2.prevNet)
      (hproc' : r'.prevProc = (r₀.readProcesses c.kernel).2.prevProc)
      (hfilesystems : snap.filesystems = readFilesystems c.kernel.files)
      (hsensors : snap.sensors = readSensors c.kernel)

variable {r r' : Reader} {c : Call}

theorem Reader.Calls.cases (h : r.Calls c r') : r.Called c r' := by
  obtain ⟨k, result⟩ := c
  unfold Calls Reader.snapshot Reader.readCPU at h
  cases hstat : readStat k.files with
  | error e =>
    rw [hstat] at h
    cases h
    exact .unread hstat rfl rfl
  | ok stat =>
    obtain ⟨overall, perCore⟩ := stat
    rw [hstat] at h
    dsimp only [bind, Except.bind, pure, Except.pure] at h
    cases hmemory : readMemory k.files with
    | error e =>
      rw [hmemory] at h
      cases h
      refine .broken hstat (fun hreadable => ?_) rfl rfl
      have hok := hreadable.1
      rw [hmemory] at hok
      cases hok
    | ok memory =>
      rw [hmemory] at h
      dsimp only [Reader.readNet] at h
      cases hnet : parseProcNetDev k.files with
      | error e =>
        rw [hnet] at h
        cases h
        refine .broken hstat (fun hreadable => ?_) rfl rfl
        have hok := hreadable.2
        rw [hnet] at hok
        cases hok
      | ok stats =>
        rw [hnet] at h
        cases h
        obtain ⟨hcpu, hcpus, hnets⟩ := Reader.readEach_frame k watchedProcesses
          ((r.storeCPU overall perCore).2.storeNet k.files k.now stats).2
        exact .done hstat ⟨by rw [hmemory]; rfl, by rw [hnet]; rfl⟩ hnet rfl rfl rfl rfl rfl rfl
          hcpu hcpus hnets rfl rfl rfl

/-- A call that succeeds has read the counters, the memory and the interfaces. -/
theorem Reader.snapshot_ok {k : Kernel} {snap : Snapshot} (h : r.snapshot k = (.ok snap, r')) :
    ∃ overall perCore stats, readStat k.files = .ok (overall, perCore) ∧
      parseProcNetDev k.files = .ok stats ∧
      snap.cpu.perCore = (readCores perCore r.prevCPUs).1 ∧
      snap.filesystems = readFilesystems k.files ∧
      snap.sensors = readSensors k ∧
      snap.interfaces =
        (sampleAll (netSlot k.now) (netInfo k.files k.now) (netReadings stats) r.prevNet).1 ∧
      ∃ r₀ : Reader, snap.processes = (r₀.readProcesses k).1 := by
  have hcalls : r.Calls ⟨k, .ok snap⟩ r' := h
  cases hcalls.cases with
  | unread hstat hresult => cases hresult
  | broken hstat hbroken hresult => cases hresult
  | @done overall perCore stats snap' r₀ hstat _ hnet hresult _ hcpu hinterfaces hprocesses _ _ _ _
      _ hfilesystems hsensors =>
    cases hresult
    exact ⟨overall, perCore, stats, hstat, hnet, congrArg CPUInfo.perCore hcpu, hfilesystems,
      hsensors, hinterfaces, r₀, hprocesses⟩

theorem Reader.snapshot_memory {k : Kernel} {snap : Snapshot} (h : r.snapshot k = (.ok snap, r')) :
    readMemory k.files = .ok snap.memory := by
  unfold Reader.snapshot at h
  cases hcpu : r.readCPU k.files with
  | error e =>
    rw [hcpu] at h
    cases h
  | ok cpu =>
    rw [hcpu] at h
    dsimp only at h
    cases hmemory : readMemory k.files with
    | error e =>
      rw [hmemory] at h
      cases h
    | ok memory =>
      rw [hmemory] at h
      dsimp only at h
      cases hnet : cpu.2.readNet k.files k.now with
      | error e =>
        rw [hnet] at h
        cases h
      | ok nets =>
        rw [hnet] at h
        cases h
        rfl

end SmartSfp.Sysmon
