import Mathlib.Algebra.Ring.Int.Defs
import Mathlib.Data.Int.Cast.Basic
import Mathlib.Tactic.Common

/-!
# Word — unsigned arithmetic of 64 bits that does not wrap
-/

namespace SmartSfp.Lib

variable {a b c : UInt64}

/-- The difference of the values. -/
def SubExact (a b : UInt64) : Prop := ((a - b).toNat : Int) = a.toNat - b.toNat

/-- The product of the values. -/
def MulExact (a b : UInt64) : Prop := (a * b).toNat = a.toNat * b.toNat

theorem subExact_iff : SubExact a b ↔ b ≤ a := by
  have hdiff := UInt64.toNat_sub a b
  have ha := a.toNat_lt
  have hb := b.toNat_lt
  rw [SubExact, UInt64.le_iff_toNat_le, hdiff]
  omega

theorem add_toNat_sub (h : b ≤ a) : b.toNat + (a - b).toNat = a.toNat := by
  rw [UInt64.toNat_sub_of_le _ _ h, Nat.add_sub_cancel' (UInt64.le_iff_toNat_le.mp h)]

/-- The same for the numbers that are computed with it. -/
theorem cast_toNat_sub {α : Type} [AddGroupWithOne α] (h : b ≤ a) :
    ((a - b).toNat : α) = a.toNat - b.toNat := by
  rw [UInt64.toNat_sub_of_le _ _ h, Nat.cast_sub (UInt64.le_iff_toNat_le.mp h)]

/-- A difference that wraps is larger than what it is taken from. -/
theorem sub_le_self_iff : a - b ≤ a ↔ b ≤ a := by
  have hdiff := UInt64.toNat_sub a b
  have ha := a.toNat_lt
  have hb := b.toNat_lt
  rw [UInt64.le_iff_toNat_le, UInt64.le_iff_toNat_le, hdiff]
  omega

theorem mulExact_iff : MulExact a b ↔ a.toNat * b.toNat < UInt64.size := by
  rw [MulExact, UInt64.toNat_mul]
  exact Nat.mod_eq_iff_lt (by decide)

theorem toNat_pos (h : c ≠ 0) : 0 < c.toNat := by
  rw [Nat.pos_iff_ne_zero]
  exact fun hzero => h (UInt64.toNat_inj.mp hzero)

/-- Multiples of one word that are exact, with their difference. -/
theorem multiples_exact_iff :
    (MulExact a c ∧ MulExact b c ∧ SubExact (a * c) (b * c)) ↔
      a.toNat * c.toNat < UInt64.size ∧ (c = 0 ∨ b ≤ a) := by
  rw [mulExact_iff, mulExact_iff, subExact_iff]
  constructor
  · rintro ⟨ha, hb, hle⟩
    refine ⟨ha, ?_⟩
    by_cases hc : c = 0
    · exact .inl hc
    · rw [UInt64.le_iff_toNat_le, mulExact_iff.mpr ha, mulExact_iff.mpr hb] at hle
      exact .inr (UInt64.le_iff_toNat_le.mpr (Nat.le_of_mul_le_mul_right hle (toNat_pos hc)))
  · rintro ⟨ha, hc | hle⟩
    · subst hc
      rw [UInt64.mul_zero, UInt64.mul_zero]
      exact ⟨ha, Nat.zero_lt_succ _, UInt64.le_refl 0⟩
    · have hmul : b.toNat * c.toNat ≤ a.toNat * c.toNat :=
        Nat.mul_le_mul_right _ (UInt64.le_iff_toNat_le.mp hle)
      have hb := Nat.lt_of_le_of_lt hmul ha
      refine ⟨ha, hb, ?_⟩
      rw [UInt64.le_iff_toNat_le, mulExact_iff.mpr ha, mulExact_iff.mpr hb]
      exact hmul

/-- A signed number taken as an unsigned one. -/
theorem toNat_toUInt64 (x : Int64) : (x.toUInt64.toNat : Int) = x.toInt % 2 ^ 64 := by
  have hbits : (BitVec.ofInt 64 x.toInt).toNat = x.toUInt64.toNat := by
    rw [← Int64.toInt_toBitVec, BitVec.ofInt_toInt]
    rfl
  rw [← hbits, BitVec.toNat_ofInt]
  omega

end SmartSfp.Lib
