import Mathlib.Data.List.Induction
import SmartSfp.Lib.Word
import SmartSfp.Sysmon.Calls
import SmartSfp.Sysmon.Load

/-!
# Figures — memory and file systems in their ranges

What is used is a difference of two numbers of the kernel, and the size of a file system a product
of two.  Nothing is checked before they are computed, so the figures are as good as the numbers.
-/

namespace SmartSfp.Sysmon

open Lib Text

def IsPercentage (pct : ℚ) : Prop := 0 ≤ pct ∧ pct ≤ 100

/-- `blockKB`. -/
def Statfs.blockKB (st : Statfs) : UInt64 := (st.bsize / 1024).toUInt64

/-- The percentage is one, and the difference it is of is exact. -/
structure MemoryInfo.InRange (m : MemoryInfo) : Prop where
  pct : IsPercentage m.usedPct
  used : 0 < m.totalKB → SubExact m.totalKB m.availableKB

/-- The figures of a file system that has these counts. -/
structure FSInfo.InRange (fs : FSInfo) (st : Statfs) : Prop where
  used_le : fs.usedKB ≤ fs.sizeKB
  pct : IsPercentage fs.usedPct
  size : (st.blocks.toNat : ℤ) * st.bsize.toInt < 2 ^ 64 →
    (fs.sizeKB.toNat : ℤ) = st.blocks.toNat * st.bsize.toInt / 1024
  size_exact : MulExact st.blocks st.blockKB
  free_exact : MulExact st.bavail st.blockKB
  used_exact : SubExact (st.blocks * st.blockKB) (st.bavail * st.blockKB)

structure Snapshot.InRange (snap : Snapshot) (f : Files) : Prop where
  memory : snap.memory.InRange
  filesystems : ∀ fs ∈ snap.filesystems, ∃ st, f.statfs fs.mount = some st ∧ fs.InRange st

/-! ## What the kernel has to tell -/

/-- The value of the last line of `/proc/meminfo` with this key, 0 without one. -/
def lastValue (content : Text) (key : String) : UInt64 :=
  (((scanLines content).reverse.map parseMeminfoLine).lookup (utf8 key)).getD 0

/-- If all is used, as far as a `float64` can tell, the product of all with 100 is not rounded up so
far that its quotient is above 100. -/
def FullRounds (used whole : ℕ) : Prop :=
  Float64.ofNat used = Float64.ofNat whole →
    Float64.round (100 * Float64.ofNat whole) ≤ (100 + 1 / 2 ^ 47) * Float64.ofNat whole

/-- No more memory is available than there is. -/
def MemoryAgrees (content : Text) : Prop :=
  lastValue content "MemTotal" = 0 ∨
    (lastValue content "MemAvailable" ≤ lastValue content "MemTotal" ∧
      FullRounds ((lastValue content "MemTotal").toNat - (lastValue content "MemAvailable").toNat)
        (lastValue content "MemTotal").toNat)

/-- The counts agree, and whole KiB of the blocks are all that matters of them. -/
structure Statfs.Agrees (st : Statfs) : Prop where
  nonneg : 0 ≤ st.bsize.toInt ∨ st.blocks = 0
  fits : (st.blocks.toNat : ℤ) * (st.bsize.toInt / 1024) < 2 ^ 64
  available : st.bsize.toInt.natAbs < 1024 ∨ st.bavail ≤ st.blocks
  whole : (st.blocks.toNat : ℤ) * st.bsize.toInt < 2 ^ 64 →
    (st.blocks.toNat : ℤ) * (st.bsize.toInt % 1024) < 1024
  rounds : FullRounds ((st.blocks.toNat - st.bavail.toNat) * (st.bsize.toInt / 1024).toNat)
    (st.blocks.toNat * (st.bsize.toInt / 1024).toNat)

/-! ## Percentages -/

/-- Half a place above 100 is the last that rounds to it. -/
theorem round_le_hundred_iff {x : ℚ} (hx : 0 ≤ x) :
    Float64.round x ≤ 100 ↔ x ≤ 100 + 1 / 2 ^ 47 := by
  have hplace {y : ℚ} (hlow : 64 ≤ y) (hhigh : y < 128) : Float64.ulp y = 1 / 2 ^ 46 := by
    rw [Float64.ulp_eq (e := 6) (by norm_num; exact hlow) (by norm_num; exact hhigh)]
    norm_num
  obtain hle | hgt := le_or_gt x 100
  · have hhundred : Float64.round 100 = 100 :=
      Float64.round_eq_self (n := 100 * 2 ^ 46) (by rw [hplace] <;> norm_num)
    have hround := Float64.round_mono hx hle
    rw [hhundred] at hround
    exact iff_of_true hround (by linarith)
  obtain hlt | hge := lt_or_ge x 128
  · have heven : (100 * 2 ^ 46 : ℤ) % 2 = 0 := by decide
    have hdiv : x / (1 / 2 ^ 46) = x * 2 ^ 46 := by rw [div_div_eq_mul_div, div_one]
    have hcast : ((100 * 2 ^ 46 : ℤ) : ℚ) = 100 * 2 ^ 46 := by norm_num
    rw [Float64.round, hplace (by linarith) hlt, hdiv, mul_one_div, div_le_iff₀ (by norm_num),
      ← hcast, Int.cast_le, Float64.nearest_le_iff heven, hcast]
    constructor
    · intro h
      linarith
    · intro h
      linarith
  · have hnext : Float64.round 128 = 128 := by
      refine Float64.round_eq_self (n := 2 ^ 52) ?_
      rw [Float64.ulp_eq (e := 7) (by norm_num) (by norm_num)]
      norm_num
    have hround := Float64.round_mono (by norm_num) hge
    rw [hnext] at hround
    exact iff_of_false (by linarith) (by norm_num; linarith)

/-- A hundred times a part that is less than the whole also after the conversion. -/
theorem round_mul_hundred_le {used whole : ℕ} (hused : 0 < used) (hwhole : 0 < whole)
    (h : Float64.ofNat used < Float64.ofNat whole) :
    Float64.round (Float64.ofNat used * 100) ≤ 100 * Float64.ofNat whole := by
  have hpos := Float64.ofNat_pos hused
  have hgap : Float64.ofNat used + Float64.ulp (Float64.ofNat used) ≤ Float64.ofNat whole :=
    Float64.round_add_ulp_le (Nat.cast_pos.mpr hused) (Nat.cast_pos.mpr hwhole) h
  have hplace :
      Float64.ulp (Float64.ofNat used * 100) ≤ 2 ^ 7 * Float64.ulp (Float64.ofNat used) := by
    rw [← Float64.ulp_two_pow_mul hpos]
    exact Float64.ulp_mono (by linarith) (by linarith)
  have herror := (abs_le.mp (Float64.abs_round_sub_le (Float64.ofNat used * 100))).2
  have hulp := Float64.ulp_pos (Float64.ofNat used)
  linarith

/-- The percentage of a part is one unless it is the whole, after the conversions, and its product
with 100 is rounded up too far. -/
theorem isPercentage_iff {used whole : UInt64} (hle : used ≤ whole) (h : 0 < whole) :
    IsPercentage (percentOf used whole) ↔ FullRounds used.toNat whole.toNat := by
  have hwhole : 0 < whole.toNat := UInt64.lt_iff_toNat_lt.mp h
  have hpos := Float64.ofNat_pos hwhole
  have hmono := Float64.ofNat_mono (UInt64.le_iff_toNat_le.mp hle)
  have hnonneg : 0 ≤ Float64.ofNat used.toNat := Float64.round_nonneg (Nat.cast_nonneg _)
  have hproduct : 0 ≤ Float64.mul (Float64.ofNat used.toNat) 100 :=
    Float64.round_nonneg (by linarith)
  have hquotient := div_nonneg hproduct hpos.le
  have hpct : IsPercentage (percentOf used whole) ↔
      Float64.mul (Float64.ofNat used.toNat) 100 ≤
        (100 + 1 / 2 ^ 47) * Float64.ofNat whole.toNat := by
    rw [← div_le_iff₀ hpos, ← round_le_hundred_iff hquotient]
    exact ⟨fun h => h.2, fun h => ⟨Float64.round_nonneg hquotient, h⟩⟩
  rw [hpct]
  obtain hlt | heq := hmono.lt_or_eq
  · refine iff_of_true ?_ fun heq => absurd heq hlt.ne
    obtain hzero | hused := used.toNat.eq_zero_or_pos
    · rw [hzero, Float64.ofNat_zero, Float64.mul, zero_mul, Float64.round_zero]
      linarith
    · have hround := round_mul_hundred_le hused hwhole hlt
      rw [← Float64.mul] at hround
      linarith
  · rw [heq, Float64.mul, mul_comm _ 100]
    exact ⟨fun hround _ => hround, fun hfull => hfull heq⟩

example : 100 < percentOf 800748904319390 800748904319390 := by decide +kernel

/-- Up to 2^53/100 no product with 100 is rounded. -/
theorem fullRounds_of_le {used whole : ℕ} (h : 100 * whole ≤ 2 ^ 53) : FullRounds used whole := by
  intro _
  have hproduct : Float64.round (100 * whole) = 100 * whole := by
    have hexact := Float64.ofNat_eq_self h
    rw [Float64.ofNat] at hexact
    push_cast at hexact
    exact hexact
  rw [Float64.ofNat_eq_self (by omega), hproduct]
  have hnonneg : (0 : ℚ) ≤ whole := Nat.cast_nonneg whole
  linarith

theorem isPercentage_zero : IsPercentage 0 := ⟨le_refl 0, by norm_num⟩

/-! ## Memory -/

section Memory

variable {get : MemoryInfo → UInt64} {key : String}

/-- A field that the lines of one key set holds the value of the last of them. -/
theorem foldl_addLine (hget : ∀ m line, get (m.addLine line) =
      if (parseMeminfoLine line).1 = utf8 key then (parseMeminfoLine line).2 else get m)
    (lines : List Text) (m : MemoryInfo) :
    get (lines.foldl MemoryInfo.addLine m) =
      ((lines.reverse.map parseMeminfoLine).lookup (utf8 key)).getD (get m) := by
  induction lines using List.reverseRecOn with
  | nil => rfl
  | append_singleton lines line ih =>
    rw [List.foldl_append, List.foldl_cons, List.foldl_nil, hget, ih, List.reverse_append,
      List.reverse_singleton, List.singleton_append, List.map_cons]
    obtain ⟨k, v⟩ := parseMeminfoLine line
    -- the last line decides if it has the key, and the lines before it otherwise
    by_cases hkey : k = utf8 key
    · rw [if_pos hkey, List.lookup_cons, hkey, beq_self_eq_true]
      rfl
    · rw [if_neg hkey, List.lookup_cons, beq_false_of_ne (Ne.symm hkey)]

theorem addLine_totalKB (m : MemoryInfo) (line : Text) :
    (m.addLine line).totalKB =
      if (parseMeminfoLine line).1 = utf8 "MemTotal" then (parseMeminfoLine line).2
      else m.totalKB := by
  unfold MemoryInfo.addLine
  obtain ⟨k, v⟩ := parseMeminfoLine line
  dsimp only
  split_ifs <;> rfl

theorem addLine_availableKB (m : MemoryInfo) (line : Text) :
    (m.addLine line).availableKB =
      if (parseMeminfoLine line).1 = utf8 "MemAvailable" then (parseMeminfoLine line).2
      else m.availableKB := by
  have hne : utf8 "MemTotal" ≠ utf8 "MemAvailable" := by decide
  unfold MemoryInfo.addLine
  obtain ⟨k, v⟩ := parseMeminfoLine line
  dsimp only
  by_cases hkey : k = utf8 "MemAvailable"
  · have hother : k ≠ utf8 "MemTotal" := fun h => hne (h.symm.trans hkey)
    rw [if_neg hother, if_pos hkey, if_pos hkey]
  · rw [if_neg hkey, if_neg hkey]
    split_ifs <;> rfl

end Memory

theorem foldl_addLine_usedPct (lines : List Text) (m : MemoryInfo) :
    (lines.foldl MemoryInfo.addLine m).usedPct = m.usedPct := by
  induction lines generalizing m with
  | nil => rfl
  | cons line lines ih =>
    have hline : (m.addLine line).usedPct = m.usedPct := by
      unfold MemoryInfo.addLine
      obtain ⟨k, v⟩ := parseMeminfoLine line
      dsimp only
      split_ifs <;> rfl
    rw [List.foldl_cons, ih, hline]

/-- The memory that is reported of a content. -/
theorem readMemory_ok {f : Files} {content : Text} {m : MemoryInfo}
    (hfile : f.readFile (utf8 "/proc/meminfo") = .ok content) (h : readMemory f = .ok m) :
    m.totalKB = lastValue content "MemTotal" ∧ m.availableKB = lastValue content "MemAvailable" ∧
      m.usedPct =
        if 0 < m.totalKB then percentOf (m.totalKB - m.availableKB) m.totalKB else 0 := by
  have htotal := foldl_addLine addLine_totalKB (scanLines content) ⟨0, 0, 0, 0, 0, 0⟩
  have havailable := foldl_addLine addLine_availableKB (scanLines content) ⟨0, 0, 0, 0, 0, 0⟩
  have hpct := foldl_addLine_usedPct (scanLines content) ⟨0, 0, 0, 0, 0, 0⟩
  unfold readMemory at h
  rw [hfile] at h
  dsimp only [bind, Except.bind] at h
  generalize (scanLines content).foldl MemoryInfo.addLine ⟨0, 0, 0, 0, 0, 0⟩ = m₀ at *
  by_cases hpos : 0 < m₀.totalKB
  · rw [if_pos hpos] at h
    cases h
    exact ⟨htotal, havailable, (if_pos hpos).symm⟩
  · rw [if_neg hpos] at h
    cases h
    exact ⟨htotal, havailable, hpct.trans (if_neg hpos).symm⟩

theorem memory_inRange_iff {f : Files} {content : Text} {m : MemoryInfo}
    (hfile : f.readFile (utf8 "/proc/meminfo") = .ok content) (h : readMemory f = .ok m) :
    m.InRange ↔ MemoryAgrees content := by
  obtain ⟨htotal, havailable, hpct⟩ := readMemory_ok hfile h
  rw [MemoryAgrees, ← htotal, ← havailable]
  by_cases hpos : 0 < m.totalKB
  · rw [if_pos hpos] at hpct
    have hused (hle : m.availableKB ≤ m.totalKB) :
        m.InRange ↔ FullRounds (m.totalKB.toNat - m.availableKB.toNat) m.totalKB.toNat := by
      rw [← UInt64.toNat_sub_of_le _ _ hle,
        ← isPercentage_iff (sub_le_self_iff.mpr hle) hpos, ← hpct]
      exact ⟨MemoryInfo.InRange.pct, fun h => ⟨h, fun _ => subExact_iff.mpr hle⟩⟩
    constructor
    · intro hrange
      have hle := subExact_iff.mp (hrange.used hpos)
      exact .inr ⟨hle, (hused hle).mp hrange⟩
    · rintro (hzero | ⟨hle, hrounds⟩)
      · rw [hzero] at hpos
        exact absurd hpos (UInt64.lt_irrefl 0)
      · exact (hused hle).mpr hrounds
  · rw [if_neg hpos] at hpct
    have hzero : m.totalKB = 0 := by
      by_contra hne
      exact hpos (UInt64.lt_iff_toNat_lt.mpr (toNat_pos hne))
    refine ⟨fun _ => .inl hzero, fun _ => ⟨?_, fun h => absurd h hpos⟩⟩
    rw [hpct]
    exact isPercentage_zero

/-! ## File systems -/

section Filesystem

variable {st : Statfs} {fs : FSInfo}

theorem toNat_blockKB (st : Statfs) :
    (st.blockKB.toNat : ℤ) = st.bsize.toInt.tdiv 1024 % 2 ^ 64 := by
  rw [Statfs.blockKB, toNat_toUInt64, Int64.toInt_div_of_ne_right _ _ (by decide)]
  rfl

theorem toNat_blockKB_of_nonneg (h : 0 ≤ st.bsize.toInt) :
    (st.blockKB.toNat : ℤ) = st.bsize.toInt / 1024 := by
  have hlt := st.bsize.toInt_lt
  rw [toNat_blockKB, Int.tdiv_eq_ediv_of_nonneg h]
  omega

theorem blockKB_eq_zero_iff : st.blockKB = 0 ↔ st.bsize.toInt.natAbs < 1024 := by
  have hlt := st.bsize.toInt_lt
  have hle := st.bsize.le_toInt
  have hvalue := toNat_blockKB st
  -- the division truncates, so a negative size is divided like its magnitude
  have hdiv : st.bsize.toInt.tdiv 1024 =
      if 0 ≤ st.bsize.toInt then st.bsize.toInt / 1024 else -(-st.bsize.toInt / 1024) := by
    by_cases hnonneg : 0 ≤ st.bsize.toInt
    · rw [if_pos hnonneg, Int.tdiv_eq_ediv_of_nonneg hnonneg]
    · have hpos : 0 ≤ -st.bsize.toInt := by omega
      rw [if_neg hnonneg, ← Int.tdiv_eq_ediv_of_nonneg hpos, Int.neg_tdiv, Int.neg_neg]
  rw [hdiv] at hvalue
  rw [← UInt64.toNat_inj, UInt64.toNat_zero]
  omega

/-- The figures are in range when nothing wraps, the size is right, and the percentage is one. -/
theorem readFilesystem_inRange_iff {f : Files} {mount : Text} (hstatfs : f.statfs mount = some st)
    (hread : readFilesystem f mount = some fs) :
    fs.InRange st ↔
      (MulExact st.blocks st.blockKB ∧ MulExact st.bavail st.blockKB ∧
        SubExact (st.blocks * st.blockKB) (st.bavail * st.blockKB)) ∧
      ((st.blocks.toNat : ℤ) * st.bsize.toInt < 2 ^ 64 →
        ((st.blocks * st.blockKB).toNat : ℤ) = st.blocks.toNat * st.bsize.toInt / 1024) ∧
      FullRounds ((st.blocks.toNat - st.bavail.toNat) * st.blockKB.toNat)
        (st.blocks.toNat * st.blockKB.toNat) := by
  rw [readFilesystem, hstatfs] at hread
  cases hread
  -- the percentage, where nothing wraps
  have hpct (hsize : MulExact st.blocks st.blockKB) (hfree : MulExact st.bavail st.blockKB)
      (hused : SubExact (st.blocks * st.blockKB) (st.bavail * st.blockKB)) :
      IsPercentage (if 0 < st.blocks * st.blockKB then percentOf
        (st.blocks * st.blockKB - st.bavail * st.blockKB) (st.blocks * st.blockKB) else 0) ↔
      FullRounds ((st.blocks.toNat - st.bavail.toNat) * st.blockKB.toNat)
        (st.blocks.toNat * st.blockKB.toNat) := by
    have hle := subExact_iff.mp hused
    rw [Nat.sub_mul, ← hsize, ← hfree, ← UInt64.toNat_sub_of_le _ _ hle]
    by_cases hpos : 0 < st.blocks * st.blockKB
    · rw [if_pos hpos]
      exact isPercentage_iff (sub_le_self_iff.mpr hle) hpos
    · rw [if_neg hpos]
      have hzero : (st.blocks * st.blockKB).toNat = 0 := by
        rw [UInt64.lt_iff_toNat_lt, UInt64.toNat_zero] at hpos
        omega
      rw [hzero]
      exact iff_of_true isPercentage_zero (fullRounds_of_le (by decide))
  constructor
  · exact fun h => ⟨⟨h.size_exact, h.free_exact, h.used_exact⟩, h.size,
      (hpct h.size_exact h.free_exact h.used_exact).mp h.pct⟩
  · rintro ⟨⟨hsize, hfree, hused⟩, hfloor, hrounds⟩
    have hle : st.blocks * st.blockKB - st.bavail * st.blockKB ≤ st.blocks * st.blockKB :=
      sub_le_self_iff.mpr (subExact_iff.mp hused)
    exact ⟨hle, (hpct hsize hfree hused).mpr hrounds, hfloor, hsize, hfree, hused⟩

/-- What the division of the block size drops. -/
theorem floor_eq_iff (blocks bsize : ℤ) (hblocks : 0 ≤ blocks) :
    blocks * (bsize / 1024) = blocks * bsize / 1024 ↔ blocks * (bsize % 1024) < 1024 := by
  have hsplit : blocks * bsize = blocks * (bsize % 1024) + blocks * (bsize / 1024) * 1024 := by
    have hdivmod := Int.emod_add_mul_ediv bsize 1024
    calc blocks * bsize
      _ = blocks * (bsize % 1024 + 1024 * (bsize / 1024)) := by rw [hdivmod]
      _ = blocks * (bsize % 1024) + blocks * (bsize / 1024) * 1024 := by
        rw [mul_add, mul_comm 1024, mul_assoc]
  have hrest : 0 ≤ blocks * (bsize % 1024) :=
    mul_nonneg hblocks (Int.emod_nonneg bsize (by decide))
  rw [hsplit, Int.add_mul_ediv_right _ _ (by decide)]
  omega

theorem blocks_mul_blockKB (h : 0 ≤ st.bsize.toInt ∨ st.blocks = 0) :
    (st.blocks.toNat : ℤ) * st.blockKB.toNat = st.blocks.toNat * (st.bsize.toInt / 1024) := by
  rcases h with hnonneg | hzero
  · rw [toNat_blockKB_of_nonneg hnonneg]
  · rw [hzero, UInt64.toNat_zero, Nat.cast_zero, zero_mul, zero_mul]

/-- The size is right only if the blocks have one. -/
theorem nonneg_of_floor (h : (st.blocks.toNat : ℤ) * st.bsize.toInt < 2 ^ 64 →
      ((st.blocks * st.blockKB).toNat : ℤ) = st.blocks.toNat * st.bsize.toInt / 1024) :
    0 ≤ st.bsize.toInt ∨ st.blocks = 0 := by
  by_contra hnot
  rw [not_or, not_le] at hnot
  have hblocks : (0 : ℤ) < st.blocks.toNat := Int.natCast_pos.mpr (toNat_pos hnot.2)
  have hneg : (st.blocks.toNat : ℤ) * st.bsize.toInt < 0 := mul_neg_of_pos_of_neg hblocks hnot.1
  have hfloor := h (by omega)
  omega

/-- The products, read as those of the quotient. -/
theorem fullRounds_blockKB_iff (h : 0 ≤ st.bsize.toInt ∨ st.blocks = 0) :
    FullRounds ((st.blocks.toNat - st.bavail.toNat) * st.blockKB.toNat)
        (st.blocks.toNat * st.blockKB.toNat) ↔
      FullRounds ((st.blocks.toNat - st.bavail.toNat) * (st.bsize.toInt / 1024).toNat)
        (st.blocks.toNat * (st.bsize.toInt / 1024).toNat) := by
  rcases h with hnonneg | hzero
  · have hquotient : (st.bsize.toInt / 1024).toNat = st.blockKB.toNat := by
      rw [← toNat_blockKB_of_nonneg hnonneg, Int.toNat_natCast]
    rw [hquotient]
  · simp only [hzero, UInt64.toNat_zero, Nat.zero_sub, Nat.zero_mul]

theorem filesystem_inRange_iff {f : Files} {mount : Text} (hstatfs : f.statfs mount = some st)
    (hread : readFilesystem f mount = some fs) : fs.InRange st ↔ st.Agrees := by
  rw [readFilesystem_inRange_iff hstatfs hread, multiples_exact_iff, blockKB_eq_zero_iff]
  have hblocks : (0 : ℤ) ≤ st.blocks.toNat := Int.natCast_nonneg _
  have hsize : UInt64.size = 2 ^ 64 := rfl
  constructor
  · rintro ⟨⟨hfits, havailable⟩, hfloor, hrounds⟩
    have hnonneg := nonneg_of_floor hfloor
    -- from here on `blockKB` may be read as the quotient
    have hproduct := blocks_mul_blockKB hnonneg
    rw [mulExact_iff.mpr hfits, Nat.cast_mul, hproduct] at hfloor
    refine ⟨hnonneg, ?_, havailable, fun hlt => (floor_eq_iff _ _ hblocks).mp (hfloor hlt),
      (fullRounds_blockKB_iff hnonneg).mp hrounds⟩
    rw [← hproduct]
    exact_mod_cast hfits
  · rintro ⟨hnonneg, hfits, havailable, hwhole, hrounds⟩
    have hproduct := blocks_mul_blockKB hnonneg
    have hexact : st.blocks.toNat * st.blockKB.toNat < UInt64.size := by
      rw [← hproduct] at hfits
      exact_mod_cast hfits
    refine ⟨⟨hexact, havailable⟩, fun hlt => ?_, (fullRounds_blockKB_iff hnonneg).mpr hrounds⟩
    rw [mulExact_iff.mpr hexact, Nat.cast_mul, hproduct]
    exact (floor_eq_iff _ _ hblocks).mpr (hwhole hlt)

end Filesystem

/-! ## A snapshot -/

/-- Memory and file systems are in their ranges exactly when the numbers of the kernel agree. -/
theorem figures_in_range_iff {r r' : Reader} {k : Kernel} {snap : Snapshot} {content : Text}
    (hsnap : r.snapshot k = (.ok snap, r'))
    (hfile : k.files.readFile (utf8 "/proc/meminfo") = .ok content) :
    snap.InRange k.files ↔ MemoryAgrees content ∧
      ∀ mount ∈ mountsToReport, ∀ st, k.files.statfs mount = some st → st.Agrees := by
  have hmemory := memory_inRange_iff hfile (Reader.snapshot_memory hsnap)
  obtain ⟨_, _, _, _, _, _, hfilesystems, -⟩ := Reader.snapshot_ok hsnap
  constructor
  · intro h
    refine ⟨hmemory.mp h.memory, fun mount hmount st hstatfs => ?_⟩
    obtain ⟨fs, hread⟩ : ∃ fs, readFilesystem k.files mount = some fs := by
      rw [readFilesystem, hstatfs]
      exact ⟨_, rfl⟩
    have hmem : fs ∈ snap.filesystems := by
      rw [hfilesystems]
      exact List.mem_filterMap.mpr ⟨mount, hmount, hread⟩
    obtain ⟨st', hstatfs', hrange⟩ := h.filesystems fs hmem
    rw [(readFilesystem_some hread).1, hstatfs] at hstatfs'
    cases hstatfs'
    exact (filesystem_inRange_iff hstatfs hread).mp hrange
  · rintro ⟨hagrees, hcounts⟩
    refine ⟨hmemory.mpr hagrees, fun fs hfs => ?_⟩
    rw [hfilesystems] at hfs
    obtain ⟨mount, hmount, hread⟩ := List.mem_filterMap.mp hfs
    obtain ⟨hname, st, hstatfs⟩ := readFilesystem_some hread
    rw [hname]
    exact ⟨st, hstatfs, (filesystem_inRange_iff hstatfs hread).mpr
      (hcounts mount hmount st hstatfs)⟩

namespace Kat

/-- A module with this memory and this root file system. -/
def mounted (meminfo : String) (root : Statfs) : Kernel :=
  let contents := [("/proc/stat", "cpu 1\n"), ("/proc/meminfo", meminfo), ("/proc/net/dev", "")]
  { Kernel.ofContents 0 contents with
    files :=
      { Files.ofContents contents with
        statfs := fun m => if m = utf8 "/" then some root else none } }

/-- Half of the memory is available, and a quarter of the blocks. -/
def half : Kernel := mounted "MemTotal: 1010500 kB\nMemAvailable: 505250 kB\n" ⟨4096, 1000, 250⟩

/-- More memory is available than there is, and the blocks have half a KiB. -/
def askew : Kernel := mounted "MemTotal: 1000 kB\nMemAvailable: 2000 kB\n" ⟨512, 1000000, 400000⟩

end Kat

theorem figures_in_range_half :
    ∃ snap r', Reader.new.snapshot Kat.half = (.ok snap, r') ∧ snap.InRange Kat.half.files := by
  refine ⟨_, _, rfl, (figures_in_range_iff rfl rfl).mpr ⟨?_, ?_⟩⟩
  · have htotal : lastValue (utf8 "MemTotal: 1010500 kB\nMemAvailable: 505250 kB\n") "MemTotal" =
        1010500 := by decide +kernel
    refine .inr ⟨by decide +kernel, fullRounds_of_le ?_⟩
    rw [htotal]
    decide
  · intro mount _ st hstatfs
    obtain ⟨-, hst⟩ := Option.ite_none_right_eq_some.mp hstatfs
    cases hst
    exact ⟨.inl (by decide), by decide, .inr (by decide), by decide, fullRounds_of_le (by decide)⟩

/-- A used percentage far above 100, and a file system of 500000 KiB without a size. -/
theorem figures_out_of_range :
    ∃ snap r', Reader.new.snapshot Kat.askew = (.ok snap, r') ∧ 100 < snap.memory.usedPct ∧
      ∃ fs ∈ snap.filesystems, Kat.askew.files.statfs fs.mount = some ⟨512, 1000000, 400000⟩ ∧
        (fs.sizeKB.toNat : ℤ) ≠ 1000000 * 512 / 1024 := by
  refine ⟨_, _, rfl, ?_, _, List.mem_singleton_self _, rfl, ?_⟩
  · decide +kernel
  · decide +kernel

end SmartSfp.Sysmon
