import Mathlib.Tactic.Linarith
import SmartSfp.Lib.Word
import SmartSfp.Sysmon.Reader

/-!
# Load — the percentage between two samples of a CPU

The counters and their sums are unsigned and wrap.  Between two samples in which no counter
decreases and whose sums do not exceed 64 bits nothing wraps, and the clamp has nothing to do.
-/

namespace SmartSfp.Sysmon

namespace CPUStat

variable {p c : CPUStat}

/-- The sum of all counters. -/
def jiffies (c : CPUStat) : ℕ :=
  c.user.toNat + c.nice.toNat + c.system.toNat + c.idle.toNat + c.iowait.toNat + c.irq.toNat +
    c.softirq.toNat + c.steal.toNat

/-- The sum of the counters of busy time. -/
def busyJiffies (c : CPUStat) : ℕ :=
  c.user.toNat + c.nice.toNat + c.system.toNat + c.irq.toNat + c.softirq.toNat + c.steal.toNat

/-- No counter decreases. -/
structure Rises (p c : CPUStat) : Prop where
  user : p.user ≤ c.user
  nice : p.nice ≤ c.nice
  system : p.system ≤ c.system
  idle : p.idle ≤ c.idle
  iowait : p.iowait ≤ c.iowait
  irq : p.irq ≤ c.irq
  softirq : p.softirq ≤ c.softirq
  steal : p.steal ≤ c.steal

instance (p c : CPUStat) : Decidable (p.Rises c) :=
  decidable_of_iff (p.user ≤ c.user ∧ p.nice ≤ c.nice ∧ p.system ≤ c.system ∧ p.idle ≤ c.idle ∧
      p.iowait ≤ c.iowait ∧ p.irq ≤ c.irq ∧ p.softirq ≤ c.softirq ∧ p.steal ≤ c.steal)
    ⟨fun ⟨h₁, h₂, h₃, h₄, h₅, h₆, h₇, h₈⟩ => ⟨h₁, h₂, h₃, h₄, h₅, h₆, h₇, h₈⟩,
      fun h => ⟨h.user, h.nice, h.system, h.idle, h.iowait, h.irq, h.softirq, h.steal⟩⟩

theorem busyJiffies_le (c : CPUStat) : c.busyJiffies ≤ c.jiffies := by
  unfold busyJiffies jiffies
  omega

theorem Rises.busyJiffies_le (h : p.Rises c) : p.busyJiffies ≤ c.busyJiffies := by
  obtain ⟨huser, hnice, hsystem, -, -, hirq, hsoftirq, hsteal⟩ := h
  rw [UInt64.le_iff_toNat_le] at *
  unfold busyJiffies
  omega

/-- What the total rises by is at least what the busy time rises by. -/
theorem Rises.jiffies_le (h : p.Rises c) :
    p.jiffies + (c.busyJiffies - p.busyJiffies) ≤ c.jiffies := by
  obtain ⟨huser, hnice, hsystem, hidle, hiowait, hirq, hsoftirq, hsteal⟩ := h
  rw [UInt64.le_iff_toNat_le] at *
  unfold busyJiffies jiffies
  omega

theorem toNat_total (h : c.jiffies < UInt64.size) : c.total.toNat = c.jiffies := by
  unfold jiffies at *
  unfold total
  simp only [UInt64.toNat_add]
  rw [UInt64.size] at h
  omega

theorem toNat_busy (h : c.jiffies < UInt64.size) : c.busy.toNat = c.busyJiffies := by
  have hbusy := Nat.lt_of_le_of_lt c.busyJiffies_le h
  unfold busyJiffies at *
  unfold busy
  simp only [UInt64.toNat_add]
  rw [UInt64.size] at hbusy
  omega

end CPUStat

/-- The busy percentage between two samples of a CPU, 0 without an earlier one. -/
def trueBusy (prev : Option CPUStat) (cur : CPUStat) : ℚ :=
  match prev with
  | none => 0
  | some p =>
    if cur.jiffies ≤ p.jiffies then 0
    else 100 * (cur.busyJiffies - p.busyJiffies) / (cur.jiffies - p.jiffies)

/-- A percentage that is the one between the samples, in its range and with no subtraction
wrapped. -/
structure Sound (prev : Option CPUStat) (cur : CPUStat) (pct : ℚ) : Prop where
  eq : pct = trueBusy prev cur
  nonneg : 0 ≤ pct
  le_hundred : pct ≤ 100
  total_exact : ∀ p, prev = some p → p.jiffies + (cur.total - p.total).toNat = cur.jiffies
  busy_exact : ∀ p, prev = some p → p.busyJiffies + (cur.busy - p.busy).toNat = cur.busyJiffies

section Exact

variable {p c : CPUStat}

theorem CPUStat.Rises.total_exact (h : p.Rises c) (hc : c.jiffies < UInt64.size) :
    p.jiffies + (c.total - p.total).toNat = c.jiffies := by
  have hle : p.jiffies ≤ c.jiffies := Nat.le_trans (Nat.le_add_right _ _) h.jiffies_le
  have hp := CPUStat.toNat_total (Nat.lt_of_le_of_lt hle hc)
  have hc' := CPUStat.toNat_total hc
  have hsub : p.total ≤ c.total := by
    rw [UInt64.le_iff_toNat_le, hp, hc']
    exact hle
  rw [← hp, ← hc']
  exact Lib.add_toNat_sub hsub

theorem CPUStat.Rises.busy_exact (h : p.Rises c) (hc : c.jiffies < UInt64.size) :
    p.busyJiffies + (c.busy - p.busy).toNat = c.busyJiffies := by
  have hle := h.busyJiffies_le
  have hp := CPUStat.toNat_busy
    (Nat.lt_of_le_of_lt (Nat.le_trans (Nat.le_add_right _ _) h.jiffies_le) hc)
  have hc' := CPUStat.toNat_busy hc
  have hsub : p.busy ≤ c.busy := by
    rw [UInt64.le_iff_toNat_le, hp, hc']
    exact hle
  rw [← hp, ← hc']
  exact Lib.add_toNat_sub hsub

/-- A rise within a rise is between 0 and 100 percent of it. -/
theorem percent_mem {b t : ℕ} (h : b ≤ t) (ht : 0 < t) :
    0 ≤ (b : ℚ) * 100 / t ∧ (b : ℚ) * 100 / t ≤ 100 := by
  have hpos : (0 : ℚ) < t := Nat.cast_pos.mpr ht
  have hle : (b : ℚ) ≤ t := Nat.cast_le.mpr h
  constructor
  · exact div_nonneg (mul_nonneg (Nat.cast_nonneg b) (by norm_num)) hpos.le
  · rw [div_le_iff₀ hpos]
    linarith

theorem pctBusy_eq (h : p.Rises c) (hc : c.jiffies < UInt64.size) :
    pctBusy p c = trueBusy (some p) c ∧ 0 ≤ pctBusy p c ∧ pctBusy p c ≤ 100 := by
  have htotal := h.total_exact hc
  have hbusy := h.busy_exact hc
  have hle := h.jiffies_le
  unfold pctBusy trueBusy
  dsimp only
  generalize c.total - p.total = dt at htotal ⊢
  generalize c.busy - p.busy = db at hbusy ⊢
  -- the deltas are exact, so they vanish together with the rises of the natural sums
  by_cases hdt : dt = 0
  · subst hdt
    have hsame : c.jiffies ≤ p.jiffies := by
      rw [← htotal]
      exact Nat.le_refl _
    rw [if_pos rfl, if_pos hsame]
    norm_num
  · have hpos : 0 < dt.toNat := Lib.toNat_pos hdt
    obtain ⟨hnonneg, hhundred⟩ := percent_mem (b := db.toNat) (t := dt.toNat) (by omega) hpos
    have hcast : (c.jiffies : ℚ) - p.jiffies = dt.toNat := by
      rw [← htotal, Nat.cast_add, add_sub_cancel_left]
    have hcast' : (c.busyJiffies : ℚ) - p.busyJiffies = db.toNat := by
      rw [← hbusy, Nat.cast_add, add_sub_cancel_left]
    have hmore : ¬c.jiffies ≤ p.jiffies := by omega
    rw [if_neg hdt, if_neg (not_lt.mpr hnonneg), if_neg (not_lt.mpr hhundred), if_neg hmore, hcast,
      hcast', mul_comm (100 : ℚ)]
    exact ⟨rfl, hnonneg, hhundred⟩

/-- A percentage computed against an earlier sample of the same CPU is sound. -/
theorem coreBusy_sound {prev : Option CPUStat} (hrises : ∀ p, prev = some p → p.Rises c)
    (hc : c.jiffies < UInt64.size) : Sound prev c (coreBusy prev c) := by
  cases prev with
  | none => exact ⟨rfl, le_refl 0, by norm_num [coreBusy], by simp, by simp⟩
  | some p =>
    have hp := hrises p rfl
    obtain ⟨heq, hnonneg, hhundred⟩ := pctBusy_eq hp hc
    refine ⟨heq, hnonneg, hhundred, fun q hq => ?_, fun q hq => ?_⟩
    · cases hq
      exact hp.total_exact hc
    · cases hq
      exact hp.busy_exact hc

end Exact

end SmartSfp.Sysmon
