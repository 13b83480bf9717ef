import Mathlib.Data.List.Nodup
import SmartSfp.Metrics.Collector
import SmartSfp.Sysmon.Calls

/-!
# Series — no series twice in one scrape

The client library refuses a scrape that has a series twice.  The families of one scrape have
different names, so a series repeats only inside a family, and there only where two labels are
equal: the mounts, interfaces and processes come from fixed lists, the sensors and the cores do not.
-/

namespace SmartSfp.Metrics

open Lib Text Sysmon SystemCollector

/-! ## Lists in families -/

section Families

variable {α β κ : Type}

/-- Lists whose tags come from disjoint sets have no image in common. -/
theorem nodup_families_iff {γ : Type} (f : γ → α) (tag : α → κ)
    {families : List (List κ × List γ)} (htag : ∀ s ∈ families, ∀ x ∈ s.2, tag (f x) ∈ s.1)
    (hnames : (families.flatMap Prod.fst).Nodup) :
    ((families.flatMap Prod.snd).map f).Nodup ↔ ∀ s ∈ families, (s.2.map f).Nodup := by
  rw [List.nodup_flatMap] at hnames
  rw [List.map_flatMap, List.nodup_flatMap]
  constructor
  · exact And.left
  · intro hnodup
    refine ⟨hnodup, hnames.2.imp_of_mem ?_⟩
    intro s t hs ht hdisjoint a has hat
    obtain ⟨x, hx, rfl⟩ := List.mem_map.mp has
    obtain ⟨y, hy, hxy⟩ := List.mem_map.mp hat
    have hname := htag t ht y hy
    rw [hxy] at hname
    exact hdisjoint (htag s hs x hx) hname

/-- Blocks that show the label of what they are made from do not meet if the labels differ. -/
theorem nodup_flatMap_of_label {f : β → List α} (label : β → κ) (shown : α → κ)
    (hshown : ∀ x, ∀ a ∈ f x, shown a = label x) (hf : ∀ x, (f x).Nodup) {xs : List β}
    (hlabels : (xs.map label).Nodup) : (xs.flatMap f).Nodup := by
  rw [List.nodup_flatMap]
  refine ⟨fun x _ => hf x, ?_⟩
  rw [List.nodup_iff_pairwise_ne, List.pairwise_map] at hlabels
  apply hlabels.imp
  intro x y hne a hax hay
  exact hne ((hshown x a hax).symm.trans (hshown y a hay))

end Families

/-! ## The labels of the cores -/

theorem runeChar_toNat {n : Nat} (h : n < 0xd800) : (runeChar n).toNat = n := by
  have hsmall : (UInt32.ofNat n).toNat = n := UInt32.toNat_ofNat_of_lt' (by
    show n < 2 ^ 32
    omega)
  have hvalid : (UInt32.ofNat n).isValidChar := Or.inl (by
    rw [hsmall]
    exact h)
  unfold runeChar
  rw [dif_pos hvalid]
  exact hsmall

/-- The characters of `itoa`. -/
def itoaChars (n : Nat) : List Char :=
  if n < 10 then [runeChar (48 + n)] else [runeChar (48 + n / 10), runeChar (48 + n % 10)]

theorem itoa_eq (n : Nat) : itoa n = utf8 (String.ofList (itoaChars n)) := by
  unfold itoa itoaChars
  by_cases h0 : n = 0
  · subst h0
    decide
  · rw [if_neg h0]
    split <;> rfl

/-- The number of cores up to which `itoa` gives them different labels: with more, two tens are
surrogates. -/
def coreLimit : Nat := 10 * (0xd800 - 48) + 10

/-- The first surrogate still has a label of its own, U+FFFD. -/
theorem runeChar_inj {m n : Nat} (hm : m ≤ 0xd800) (hn : n ≤ 0xd800)
    (h : runeChar m = runeChar n) : m = n := by
  have hsurrogate : (runeChar 0xd800).toNat = 0xfffd := by decide
  have htoNat := congrArg Char.toNat h
  rcases Nat.lt_or_eq_of_le hm with hm | rfl
  · rw [runeChar_toNat hm] at htoNat
    rcases Nat.lt_or_eq_of_le hn with hn | rfl
    · rwa [runeChar_toNat hn] at htoNat
    · omega
  · rcases Nat.lt_or_eq_of_le hn with hn | rfl
    · rw [runeChar_toNat hn] at htoNat
      omega
    · rfl

theorem itoaChars_inj {i j : Nat} (hi : i < coreLimit) (hj : j < coreLimit)
    (h : itoaChars i = itoaChars j) : i = j := by
  simp only [coreLimit] at hi hj
  unfold itoaChars at h
  split at h
  · split at h
    · have hones := runeChar_inj (by omega) (by omega) (List.head_eq_of_cons_eq h)
      omega
    · simp at h
  · split at h
    · simp at h
    · have htens := runeChar_inj (by omega) (by omega) (List.head_eq_of_cons_eq h)
      have hones := runeChar_inj (by omega) (by omega)
        (List.head_eq_of_cons_eq (List.tail_eq_of_cons_eq h))
      omega

theorem itoa_inj {i j : Nat} (hi : i < coreLimit) (hj : j < coreLimit) (h : itoa i = itoa j) :
    i = j := by
  rw [itoa_eq, itoa_eq] at h
  exact itoaChars_inj hi hj (String.ofList_injective (utf8_injective h))

/-- Two cores whose tens are both surrogates. -/
theorem itoa_collision : itoa (coreLimit - 10) = itoa coreLimit := by
  decide

/-- One entry for each core. -/
theorem coreMetrics_series (perCore : List ℚ) :
    (coreMetrics perCore).map Metric.series =
      (List.range perCore.length).map fun i => (cpuPerCore.fqName, [itoa i]) := by
  rw [coreMetrics, List.map_map, List.range_eq_range', ← List.zipIdx_map_snd, List.map_map]
  rfl

theorem coreMetrics_nodup_iff (perCore : List ℚ) :
    ((coreMetrics perCore).map Metric.series).Nodup ↔ perCore.length ≤ coreLimit := by
  rw [coreMetrics_series, List.nodup_map_iff_inj_on List.nodup_range]
  constructor
  · intro hinj
    by_contra hmany
    -- two of the cores would have one label
    have hlimit : coreLimit - 10 = coreLimit :=
      hinj _ (List.mem_range.mpr (by omega)) _ (List.mem_range.mpr (by omega))
        (by rw [itoa_collision])
    simp only [coreLimit] at hlimit
    omega
  · intro hfew i hi j hj hij
    rw [List.mem_range] at hi hj
    have hlabel : itoa i = itoa j := List.head_eq_of_cons_eq (Prod.mk.inj hij).2
    exact itoa_inj (by omega) (by omega) hlabel

/-! ## Blocks of metrics -/

def Metric.name (m : Metric) : String := m.desc.fqName

/-- The metrics of one filesystem, interface or process: at most one a name, all with its label. -/
structure Block (names : List String) (label : Text) (block : List Metric) : Prop where
  names_sublist : (block.map Metric.name).Sublist names
  label_head : ∀ m ∈ block, m.labelValues.head? = some label

namespace Block

variable {names : List String} {label : Text} {block : List Metric}

theorem name_mem (h : Block names label block) {m : Metric} (hm : m ∈ block) : m.name ∈ names :=
  h.names_sublist.subset (List.mem_map_of_mem hm)

theorem nodup (h : Block names label block) (hnames : names.Nodup) :
    (block.map Metric.series).Nodup := by
  have hblock := h.names_sublist.nodup hnames
  have hname : Metric.name = Prod.fst ∘ Metric.series := rfl
  rw [hname, ← List.map_map] at hblock
  exact hblock.of_map Prod.fst

end Block

section Blocks

variable {β : Type} {names : List String} {label : β → Text} {f : β → List Metric}

/-- The blocks of a list in which no label repeats. -/
theorem blocks_nodup (hblock : ∀ x, Block names (label x) (f x)) (hnames : names.Nodup)
    {xs : List β} (hlabels : (xs.map label).Nodup) : ((xs.flatMap f).map Metric.series).Nodup := by
  rw [List.map_flatMap]
  apply nodup_flatMap_of_label (fun x => some (label x)) fun a => a.2.head?
  · intro x a ha
    obtain ⟨m, hm, rfl⟩ := List.mem_map.mp ha
    exact (hblock x).label_head m hm
  · intro x
    exact (hblock x).nodup hnames
  · rw [← Function.comp_def some label, ← List.map_map]
    exact hlabels.map (Option.some_injective Text)

theorem blocks_name_mem (hblock : ∀ x, Block names (label x) (f x)) {xs : List β} :
    ∀ m ∈ xs.flatMap f, m.series.1 ∈ names := by
  intro m hm
  obtain ⟨x, -, hm⟩ := List.mem_flatMap.mp hm
  exact (hblock x).name_mem hm

end Blocks

def fsNames : List String := [fsSize.fqName, fsUsed.fqName, fsUsedPct.fqName]

def interfaceNames : List String :=
  [ifUp.fqName, ifRxBytes.fqName, ifTxBytes.fqName, ifRxPackets.fqName, ifTxPackets.fqName,
    ifRxErrors.fqName, ifTxErrors.fqName, ifRxBpsNow.fqName, ifTxBpsNow.fqName]

def runningNames : List String :=
  [procRSS.fqName, procCPUPct.fqName, procThreads.fqName, procStartTime.fqName, procUptime.fqName]

def binaryNames : List String := [procBinarySize.fqName, procBinaryMtime.fqName]

def processNames : List String := procUp.fqName :: (runningNames ++ binaryNames)

theorem fsMetrics_block (fs : FSInfo) : Block fsNames fs.mount (fsMetrics fs) where
  names_sublist := List.Sublist.refl fsNames
  label_head := by simp [fsMetrics, gauge]

theorem interfaceMetrics_block (ni : NetInfo) :
    Block interfaceNames ni.name (interfaceMetrics ni) where
  names_sublist := List.Sublist.refl interfaceNames
  label_head := by simp [interfaceMetrics, gauge, counter]

theorem runningMetrics_block (p : ProcessInfo) : Block runningNames p.name (runningMetrics p) := by
  unfold runningMetrics
  split
  · exact ⟨List.Sublist.refl runningNames, by simp [gauge]⟩
  · exact ⟨List.nil_sublist runningNames, by simp⟩

theorem binaryMetrics_block (p : ProcessInfo) : Block binaryNames p.name (binaryMetrics p) := by
  unfold binaryMetrics
  split
  · exact ⟨List.Sublist.refl binaryNames, by simp [gauge]⟩
  · exact ⟨List.nil_sublist binaryNames, by simp⟩

theorem processMetrics_block (p : ProcessInfo) : Block processNames p.name (processMetrics p) where
  names_sublist := by
    rw [processMetrics, List.map_cons, List.map_append]
    exact ((runningMetrics_block p).names_sublist.append
      (binaryMetrics_block p).names_sublist).cons_cons procUp.fqName
  label_head := by
    intro m hm
    rcases List.mem_cons.mp hm with rfl | hm
    · rfl
    · rcases List.mem_append.mp hm with hm | hm
      · exact (runningMetrics_block p).label_head m hm
      · exact (binaryMetrics_block p).label_head m hm

/-! ## What the lists of a snapshot name -/

theorem readFilesystems_mounts (f : Files) : ((readFilesystems f).map FSInfo.mount).Nodup := by
  have hmount : ∀ m fs, readFilesystem f m = some fs → fs.mount = m :=
    fun _ _ h => (readFilesystem_some h).1
  have hfixed : mountsToReport.Nodup := by decide
  exact (map_filterMap_sublist hmount mountsToReport).nodup hfixed

/-! ## Sensors and cores -/

/-- What `readSensors` calls a device. -/
def sensorName (f : Files) (dir : Text) : Text := trimSpace (readString f (dir ++ utf8 "/name"))

/-- The devices that have a temperature to report. -/
def reportedDevices (k : Kernel) : List Text :=
  k.hwmon.filter fun dir => (readSensor k.files dir).isSome

theorem readSensors_names (k : Kernel) :
    (readSensors k).map SensorInfo.name = (reportedDevices k).map (sensorName k.files) := by
  have hname : ∀ dir s, readSensor k.files dir = some s → s.name = sensorName k.files dir := by
    intro dir s h
    simp only [readSensor] at h
    split at h
    · cases h
    · split at h
      · cases h
      · cases h
        rfl
  unfold readSensors reportedDevices
  induction k.hwmon with
  | nil => rfl
  | cons dir dirs ih =>
    cases hdir : readSensor k.files dir with
    | none =>
      rw [List.filterMap_cons_none hdir, List.filter_cons_of_neg (by simp [hdir])]
      exact ih
    | some s =>
      rw [List.filterMap_cons_some hdir, List.filter_cons_of_pos (by simp [hdir]), List.map_cons,
        List.map_cons, ih, hname dir s hdir]

theorem sensorMetrics_nodup_iff (sensors : List SensorInfo) :
    ((sensors.map sensorMetric).map Metric.series).Nodup ↔ (sensors.map SensorInfo.name).Nodup := by
  have hseries : (sensors.map sensorMetric).map Metric.series =
      (sensors.map SensorInfo.name).map fun name => (tempC.fqName, [name]) := by
    rw [List.map_map, List.map_map]
    rfl
  rw [hseries]
  apply List.nodup_map_iff
  intro a b hab
  exact List.head_eq_of_cons_eq (Prod.mk.inj hab).2

/-- A line of `/proc/stat` that is not the overall one. -/
def isCoreLine (line : Text) : Bool := (fields line).head? != some (utf8 "cpu")

/-- How many cores `/proc/stat` lists. -/
def coreCount (f : Files) : Nat :=
  match f.readFile (utf8 "/proc/stat") with
  | .error _ => 0
  | .ok content =>
    ((scanLines content).takeWhile fun line => hasPrefix line (utf8 "cpu")).countP isCoreLine

theorem scanCPU_length (overall : Option CPUStat) (perCore : List CPUStat) (lines : List Text) :
    (scanCPU overall perCore lines).2.length = perCore.length +
      (lines.takeWhile fun line => hasPrefix line (utf8 "cpu")).countP isCoreLine := by
  induction lines generalizing overall perCore with
  | nil => rfl
  | cons line rest ih =>
    unfold scanCPU
    cases hcpu : hasPrefix line (utf8 "cpu") with
    | false =>
      rw [List.takeWhile_cons, hcpu]
      rfl
    | true =>
      rw [List.takeWhile_cons, hcpu, if_pos rfl]
      by_cases hline : (fields line).head? = some (utf8 "cpu")
      · have hcore : isCoreLine line = false := by simp [isCoreLine, hline]
        simp only [Bool.not_true, Bool.false_eq_true, if_false, if_pos hline]
        rw [ih, List.countP_cons_of_neg (by simp [hcore])]
      · have hcore : isCoreLine line = true := by simp [isCoreLine, hline]
        simp only [Bool.not_true, Bool.false_eq_true, if_false, if_neg hline]
        rw [ih, List.countP_cons_of_pos hcore, List.length_append, List.length_singleton]
        omega

theorem readStat_length {f : Files} {overall : CPUStat} {perCore : List CPUStat}
    (h : readStat f = .ok (overall, perCore)) : perCore.length = coreCount f := by
  unfold readStat at h
  unfold coreCount
  cases hfile : f.readFile (utf8 "/proc/stat") with
  | error e =>
    rw [hfile] at h
    cases h
  | ok content =>
    rw [hfile] at h
    have hlength := scanCPU_length none [] (scanLines content)
    simp only [bind, Except.bind] at h
    split at h
    · cases h
    · rename_i hscan
      cases h
      rw [hscan] at hlength
      simpa using hlength

/-! ## A whole scrape -/

/-- The families of a snapshot, with the names they use. -/
def families (snap : Snapshot) : List (List String × List Metric) :=
  [([uptime.fqName], [gauge uptime snap.uptimeS []]),
    ([loadavg.fqName], loadMetrics snap.loadAvg),
    ([cpuBusy.fqName], [gauge cpuBusy snap.cpu.busyPct []]),
    ([cpuPerCore.fqName], coreMetrics snap.cpu.perCore),
    ([memTotal.fqName, memAvail.fqName, memUsedPct.fqName], memoryMetrics snap.memory),
    (fsNames, snap.filesystems.flatMap fsMetrics),
    ([tempC.fqName], snap.sensors.map sensorMetric),
    (interfaceNames, snap.interfaces.flatMap interfaceMetrics),
    (processNames, snap.processes.flatMap processMetrics)]

theorem metricsOf_eq (snap : Snapshot) :
    metricsOf snap = (families snap).flatMap Prod.snd := by
  simp [metricsOf, families]

theorem families_names (snap : Snapshot) : ((families snap).flatMap Prod.fst).Nodup := by
  simp only [families, List.flatMap_cons, List.flatMap_nil]
  decide

theorem families_mem (snap : Snapshot) :
    ∀ s ∈ families snap, ∀ m ∈ s.2, m.series.1 ∈ s.1 := by
  simp only [families, List.forall_mem_cons]
  refine ⟨⟨?_, by simp⟩, ?_, ⟨?_, by simp⟩, ?_, ?_, ?_, ?_, ?_, ?_, by simp⟩
  · exact List.mem_singleton_self _
  · simp [loadMetrics, gauge, Metric.series]
  · exact List.mem_singleton_self _
  · intro m hm
    obtain ⟨x, -, rfl⟩ := List.mem_map.mp hm
    exact List.mem_singleton_self _
  · simp [memoryMetrics, gauge, Metric.series]
  · exact blocks_name_mem fsMetrics_block
  · intro m hm
    obtain ⟨s, -, rfl⟩ := List.mem_map.mp hm
    exact List.mem_singleton_self _
  · exact blocks_name_mem interfaceMetrics_block
  · exact blocks_name_mem processMetrics_block

/-- Only the sensors and the cores can repeat a series. -/
theorem metricsOf_nodup_iff {snap : Snapshot}
    (hfs : (snap.filesystems.map FSInfo.mount).Nodup)
    (hnet : (snap.interfaces.map NetInfo.name).Nodup)
    (hproc : (snap.processes.map ProcessInfo.name).Nodup) :
    ((metricsOf snap).map Metric.series).Nodup ↔
      (snap.sensors.map SensorInfo.name).Nodup ∧ snap.cpu.perCore.length ≤ coreLimit := by
  have hload : ((loadMetrics snap.loadAvg).map Metric.series).Nodup := by
    show List.Nodup [(loadavg.fqName, [utf8 "1m"]), (loadavg.fqName, [utf8 "5m"]),
      (loadavg.fqName, [utf8 "15m"])]
    decide
  have hmemory : ((memoryMetrics snap.memory).map Metric.series).Nodup := by
    show List.Nodup [(memTotal.fqName, ([] : List Text)), (memAvail.fqName, []),
      (memUsedPct.fqName, [])]
    decide
  have hfs := blocks_nodup fsMetrics_block (by decide) hfs
  have hnet := blocks_nodup interfaceMetrics_block (by decide) hnet
  have hproc := blocks_nodup processMetrics_block (by decide) hproc
  rw [metricsOf_eq,
    nodup_families_iff Metric.series Prod.fst (families_mem snap) (families_names snap)]
  simp only [families, List.forall_mem_cons, coreMetrics_nodup_iff, sensorMetrics_nodup_iff, hload,
    hmemory, hfs, hnet, hproc, List.map_cons, List.map_nil, List.nodup_singleton, true_and]
  constructor
  · intro h
    exact ⟨h.2.1, h.1⟩
  · intro h
    exact ⟨h.2, h.1, by simp⟩

/-- The series of a scrape are different exactly if the devices it reports have different names and
the cores are not more than their labels. -/
theorem collect_distinct_iff (sys : Reader) (k : Kernel) (hok : (sys.snapshot k).1.isOk = true) :
    ((collect sys k).1.map Metric.series).Nodup ↔
      (reportedDevices k).Pairwise (fun d e => sensorName k.files d ≠ sensorName k.files e) ∧
        coreCount k.files ≤ coreLimit := by
  cases hsnap : sys.snapshot k with
  | mk result sys' =>
    rw [hsnap] at hok
    cases result with
    | error e => cases hok
    | ok snap =>
      obtain ⟨overall, perCore, stats, hstat, -, hcpu, hfs, hsensors, hnet, r₀, hproc⟩ :=
        Reader.snapshot_ok hsnap
      -- what the snapshot lists, by where it was read
      have hcores : snap.cpu.perCore.length = coreCount k.files := by
        rw [hcpu, ← readStat_length hstat]
        exact readCores_length perCore sys.prevCPUs
      have hmounts : (snap.filesystems.map FSInfo.mount).Nodup := by
        rw [hfs]
        exact readFilesystems_mounts k.files
      have hifaces : (snap.interfaces.map NetInfo.name).Nodup := by
        have hname : ∀ prev x, (netInfo k.files k.now prev x).name = NetReading.name x :=
          fun _ _ => rfl
        rw [hnet, sampleAll_map (netSlot k.now) hname]
        exact netReadings_names stats
      have hprocs : (snap.processes.map ProcessInfo.name).Nodup := by
        rw [hproc, Reader.readProcesses, Reader.readEach_names]
        decide
      have hcollect : (collect sys k).1 = metricsOf snap := by
        simp only [collect, hsnap]
      rw [hcollect, metricsOf_nodup_iff hmounts hifaces hprocs, hcores, hsensors, readSensors_names]
      rw [List.nodup_iff_pairwise_ne, List.pairwise_map]

/-- A module with one core and two temperature sensors of these names. -/
def twoSensors (first second : String) : Kernel where
  now := 0
  files := Files.ofContents [
    ("/proc/stat", "cpu 3 0 1 6\ncpu0 3 0 1 6\n"),
    ("/proc/meminfo", "MemTotal: 1010500 kB\n"),
    ("/proc/net/dev", ""),
    ("/sys/class/hwmon/hwmon0/name", first),
    ("/sys/class/hwmon/hwmon0/temp1_input", "41000\n"),
    ("/sys/class/hwmon/hwmon1/name", second),
    ("/sys/class/hwmon/hwmon1/temp1_input", "39000\n")]
  process _ := Files.ofContents []
  nowUnix _ := 0
  hwmon := [utf8 "/sys/class/hwmon/hwmon0", utf8 "/sys/class/hwmon/hwmon1"]
  parseFloat _ := none

theorem collect_distinct_two :
    ((collect Reader.new (twoSensors "cpu_thermal\n" "sfp\n")).1.map Metric.series).Nodup :=
  (collect_distinct_iff Reader.new (twoSensors "cpu_thermal\n" "sfp\n") (by decide +kernel)).mpr
    (by decide +kernel)

/-- Two transceivers, each a sensor called `sfp`. -/
theorem collect_repeats :
    (Reader.new.snapshot (twoSensors "sfp\n" "sfp\n")).1.isOk = true ∧
      ¬((collect Reader.new (twoSensors "sfp\n" "sfp\n")).1.map Metric.series).Nodup := by
  decide +kernel

end SmartSfp.Metrics
