import Mathlib.Algebra.Order.Floor.Ring
import Mathlib.Data.Int.Log
import Mathlib.Data.Rat.Floor
import Mathlib.Tactic.Linarith
import Mathlib.Tactic.NormNum

/-!
# Float64 — arithmetic that keeps 53 bits

An operation on `float64` gives the number with 53 significant bits that is nearest to the exact
result, and of two that are equally near the one whose last bit is 0.  Exponents are unbounded here,
so this is the arithmetic of results that neither overflow nor become subnormal.
-/

namespace SmartSfp.Lib.Float64

variable {x y : ℚ} {m n : ℤ}

/-- The nearest integer, and of two the even one. -/
def nearest (x : ℚ) : ℤ :=
  if Int.fract x < 1 / 2 then ⌊x⌋
  else if 1 / 2 < Int.fract x then ⌊x⌋ + 1
  else if ⌊x⌋ % 2 = 0 then ⌊x⌋ else ⌊x⌋ + 1

/-- The distance of the numbers with 53 bits around `x`. -/
def ulp (x : ℚ) : ℚ := 2 ^ (Int.log 2 |x| - 52)

def round (x : ℚ) : ℚ := nearest (x / ulp x) * ulp x

/-- The conversion of an unsigned integer. -/
def ofNat (n : ℕ) : ℚ := round n

def mul (x y : ℚ) : ℚ := round (x * y)

def div (x y : ℚ) : ℚ := round (x / y)

/-! ## Integers -/

theorem nearest_intCast (n : ℤ) : nearest n = n := by
  have hfract : Int.fract (n : ℚ) < 1 / 2 := by
    rw [Int.fract_intCast]
    norm_num
  rw [nearest, if_pos hfract, Int.floor_intCast]

theorem floor_le_nearest (x : ℚ) : ⌊x⌋ ≤ nearest x := by
  unfold nearest
  split_ifs <;> omega

theorem nearest_le_floor (x : ℚ) : nearest x ≤ ⌊x⌋ + 1 := by
  unfold nearest
  split_ifs <;> omega

theorem nearest_mono (h : x ≤ y) : nearest x ≤ nearest y := by
  have hfloor : ⌊x⌋ ≤ ⌊y⌋ := Int.floor_mono h
  by_cases heq : ⌊x⌋ = ⌊y⌋
  · have hfract : Int.fract x ≤ Int.fract y := by
      rw [Int.fract, Int.fract, heq]
      exact sub_le_sub_right h _
    unfold nearest
    rw [heq]
    split_ifs <;> first | omega | linarith
  · calc nearest x
      _ ≤ ⌊x⌋ + 1 := nearest_le_floor x
      _ ≤ ⌊y⌋ := by omega
      _ ≤ nearest y := floor_le_nearest y

/-- No integer is nearer. -/
theorem abs_nearest_sub_le (x : ℚ) : |nearest x - x| ≤ 1 / 2 := by
  have hsplit := Int.floor_add_fract x
  have hnonneg := Int.fract_nonneg x
  have hone := Int.fract_lt_one x
  rw [abs_le]
  unfold nearest
  split_ifs <;> push_cast <;> constructor <;> linarith

/-- What rounds to an even integer or below ends half way to the next. -/
theorem nearest_le_iff (heven : n % 2 = 0) : nearest x ≤ n ↔ x ≤ n + 1 / 2 := by
  have hsplit := Int.floor_add_fract x
  have hnonneg := Int.fract_nonneg x
  have hone := Int.fract_lt_one x
  constructor
  · intro h
    have hclose := (abs_le.mp (abs_nearest_sub_le x)).1
    have hcast : (nearest x : ℚ) ≤ n := Int.cast_le.mpr h
    linarith
  · intro h
    have hfloor : ⌊x⌋ ≤ n := by
      have hlt : (⌊x⌋ : ℚ) < n + 1 := by linarith
      exact Int.lt_add_one_iff.mp (by exact_mod_cast hlt)
    by_cases heq : ⌊x⌋ = n
    · have hhalf : Int.fract x ≤ 1 / 2 := by
        rw [heq] at hsplit
        linarith
      unfold nearest
      split_ifs <;> first | omega | linarith
    · have hnext := nearest_le_floor x
      omega

/-! ## Rounding -/

theorem ulp_pos (x : ℚ) : 0 < ulp x := zpow_pos (by norm_num) _

theorem round_zero : round 0 = 0 := by
  have hzero : nearest 0 = 0 := by exact_mod_cast nearest_intCast 0
  rw [round, zero_div, hzero, Int.cast_zero, zero_mul]

/-- The significand has 53 bits. -/
theorem two_pow_le_div_ulp (h : 0 < x) : ((2 ^ 52 : ℤ) : ℚ) ≤ x / ulp x := by
  have hlow : (2 : ℚ) ^ Int.log 2 x ≤ x := by exact_mod_cast Int.zpow_log_le_self (by decide) h
  rw [le_div_iff₀ (ulp_pos x), ulp, abs_of_pos h]
  calc ((2 ^ 52 : ℤ) : ℚ) * 2 ^ (Int.log 2 x - 52)
    _ = 2 ^ (52 : ℤ) * 2 ^ (Int.log 2 x - 52) := by norm_num
    _ = 2 ^ Int.log 2 x := by
      rw [← zpow_add₀ (by norm_num)]
      congr 1
      omega
    _ ≤ x := hlow

theorem div_ulp_lt_two_pow (h : 0 < x) : x / ulp x < ((2 ^ 53 : ℤ) : ℚ) := by
  have hhigh : x < (2 : ℚ) ^ (Int.log 2 x + 1) := by
    exact_mod_cast Int.lt_zpow_succ_log_self (by decide) x
  rw [div_lt_iff₀ (ulp_pos x), ulp, abs_of_pos h]
  calc x
    _ < 2 ^ (Int.log 2 x + 1) := hhigh
    _ = 2 ^ (53 : ℤ) * 2 ^ (Int.log 2 x - 52) := by
      rw [← zpow_add₀ (by norm_num)]
      congr 1
      omega
    _ = ((2 ^ 53 : ℤ) : ℚ) * 2 ^ (Int.log 2 x - 52) := by norm_num

theorem two_pow_le_nearest (h : 0 < x) : 2 ^ 52 ≤ nearest (x / ulp x) := by
  have hmono := nearest_mono (two_pow_le_div_ulp h)
  rwa [nearest_intCast] at hmono

theorem nearest_le_two_pow (h : 0 < x) : nearest (x / ulp x) ≤ 2 ^ 53 := by
  have hmono := nearest_mono (div_ulp_lt_two_pow h).le
  rwa [nearest_intCast] at hmono

theorem round_pos (h : 0 < x) : 0 < round x := by
  have hlow := two_pow_le_nearest h
  have hpos : 0 < nearest (x / ulp x) := by omega
  exact mul_pos (Int.cast_pos.mpr hpos) (ulp_pos x)

theorem round_nonneg (h : 0 ≤ x) : 0 ≤ round x := by
  obtain rfl | hpos := h.eq_or_lt
  · rw [round_zero]
  · exact (round_pos hpos).le

/-- The error is half a place at most. -/
theorem abs_round_sub_le (x : ℚ) : |round x - x| ≤ ulp x / 2 := by
  have hulp := ulp_pos x
  have hsplit : round x - x = (nearest (x / ulp x) - x / ulp x) * ulp x := by
    rw [round, sub_mul, div_mul_cancel₀ _ hulp.ne']
  rw [hsplit, abs_mul, abs_of_pos hulp]
  calc |(nearest (x / ulp x) : ℚ) - x / ulp x| * ulp x
    _ ≤ 1 / 2 * ulp x := mul_le_mul_of_nonneg_right (abs_nearest_sub_le _) hulp.le
    _ = ulp x / 2 := by ring

/-- A multiple of the last place is kept. -/
theorem round_eq_self (h : x = n * ulp x) : round x = x := by
  have hdiv : x / ulp x = n := (div_eq_iff (ulp_pos x).ne').mpr h
  rw [round, hdiv, nearest_intCast, ← h]

theorem ulp_eq {e : ℤ} (hlow : (2 : ℚ) ^ e ≤ x) (hhigh : x < 2 ^ (e + 1)) :
    ulp x = 2 ^ (e - 52) := by
  have hpos : 0 < x := lt_of_lt_of_le (zpow_pos (by norm_num) e) hlow
  have hlog : Int.log 2 x = e := by
    have hle : e ≤ Int.log 2 x :=
      (Int.zpow_le_iff_le_log (by decide) hpos).mp (by exact_mod_cast hlow)
    have hlt : Int.log 2 x < e + 1 :=
      (Int.lt_zpow_iff_log_lt (by decide) hpos).mp (by exact_mod_cast hhigh)
    omega
  rw [ulp, abs_of_pos hpos, hlog]

/-! ## Order -/

/-- Places grow with the numbers, by a power of 2. -/
theorem exists_ulp_eq (hx : 0 < x) (h : x ≤ y) : ∃ k : ℕ, ulp y = 2 ^ k * ulp x := by
  have hlog : Int.log 2 x ≤ Int.log 2 y := Int.log_mono_right hx h
  obtain ⟨k, hk⟩ := Int.eq_ofNat_of_zero_le (sub_nonneg.mpr hlog)
  refine ⟨k, ?_⟩
  rw [ulp, ulp, abs_of_pos hx, abs_of_pos (lt_of_lt_of_le hx h), ← zpow_natCast,
    ← zpow_add₀ (by norm_num)]
  congr 1
  omega

theorem ulp_mono (hx : 0 < x) (h : x ≤ y) : ulp x ≤ ulp y := by
  obtain ⟨k, hk⟩ := exists_ulp_eq hx h
  rw [hk]
  exact le_mul_of_one_le_left (ulp_pos x).le (one_le_pow₀ (by norm_num))

/-- The places of a number that is shifted are shifted with it. -/
theorem ulp_two_pow_mul (hx : 0 < x) (k : ℕ) : ulp (2 ^ k * x) = 2 ^ k * ulp x := by
  have hlow : (2 : ℚ) ^ Int.log 2 x ≤ x := by exact_mod_cast Int.zpow_log_le_self (by decide) hx
  have hhigh : x < (2 : ℚ) ^ (Int.log 2 x + 1) := by
    exact_mod_cast Int.lt_zpow_succ_log_self (by decide) x
  have hshift (e : ℤ) : (2 : ℚ) ^ (e + k) = 2 ^ k * 2 ^ e := by
    rw [zpow_add₀ (by norm_num), zpow_natCast, mul_comm]
  have hpow : (0 : ℚ) < 2 ^ k := pow_pos (by norm_num) k
  rw [ulp_eq (e := Int.log 2 x + k)]
  · rw [ulp, abs_of_pos hx, ← hshift]
    congr 1
    omega
  · rw [hshift]
    exact mul_le_mul_of_nonneg_left hlow hpow.le
  · have hnext : Int.log 2 x + k + 1 = Int.log 2 x + 1 + k := by omega
    rw [hnext, hshift]
    exact mul_lt_mul_of_pos_left hhigh hpow

theorem round_mono (hx : 0 ≤ x) (h : x ≤ y) : round x ≤ round y := by
  obtain rfl | hx := hx.eq_or_lt
  · rw [round_zero]
    exact round_nonneg h
  obtain ⟨k, hk⟩ := exists_ulp_eq hx h
  have hulp := ulp_pos x
  cases k with
  | zero =>
    rw [pow_zero, one_mul] at hk
    rw [round, round, hk]
    have hdiv : x / ulp x ≤ y / ulp x := (div_le_div_iff_of_pos_right hulp).mpr h
    exact mul_le_mul_of_nonneg_right (Int.cast_le.mpr (nearest_mono hdiv)) hulp.le
  | succ k =>
    -- the last number with the places of `x` is the first one with the next larger places
    have hlow : ((2 ^ 52 : ℤ) : ℚ) ≤ nearest (y / ulp y) :=
      Int.cast_le.mpr (two_pow_le_nearest (lt_of_lt_of_le hx h))
    have hhigh : (nearest (x / ulp x) : ℚ) ≤ ((2 ^ 53 : ℤ) : ℚ) :=
      Int.cast_le.mpr (nearest_le_two_pow hx)
    have hpow : (1 : ℚ) ≤ 2 ^ k := one_le_pow₀ (by norm_num)
    calc round x
      _ ≤ ((2 ^ 53 : ℤ) : ℚ) * ulp x := mul_le_mul_of_nonneg_right hhigh hulp.le
      _ = ((2 ^ 52 : ℤ) : ℚ) * (2 * 1 * ulp x) := by
        push_cast
        ring
      _ ≤ ((2 ^ 52 : ℤ) : ℚ) * (2 * 2 ^ k * ulp x) := by gcongr
      _ = ((2 ^ 52 : ℤ) : ℚ) * ulp y := by
        rw [hk]
        ring
      _ ≤ round y := mul_le_mul_of_nonneg_right hlow (ulp_pos y).le

/-- What has been rounded is a multiple of its last place. -/
theorem exists_round_eq (h : 0 < x) : ∃ n : ℤ, round x = n * ulp (round x) := by
  have hulp := ulp_pos x
  have hlow := two_pow_le_nearest h
  have hhigh := nearest_le_two_pow h
  have hvalue : round x = nearest (x / ulp x) * ulp x := rfl
  have hpow : ulp x = 2 ^ (Int.log 2 x - 52) := by rw [ulp, abs_of_pos h]
  have hplace (e : ℤ) (k : ℕ) (hk : (k : ℤ) + (Int.log 2 x - 52) = e) :
      (2 : ℚ) ^ e = ((2 ^ k : ℤ) : ℚ) * ulp x := by
    rw [hpow, ← hk, zpow_add₀ (by norm_num), zpow_natCast]
    norm_num
  by_cases hcarry : nearest (x / ulp x) = 2 ^ 53
  · -- one more bit, and a last one that is 0
    refine ⟨2 ^ 52, ?_⟩
    have hexact : round x = 2 ^ (Int.log 2 x + 1) := by
      rw [hvalue, hcarry, hplace _ 53 (by omega)]
    have hlast : ulp (round x) = 2 ^ (Int.log 2 x + 1 - 52) := by
      rw [hexact]
      exact ulp_eq (le_refl _) (zpow_lt_zpow_right₀ (by norm_num) (by omega))
    rw [hlast, hplace _ 1 (by omega), hvalue, hcarry]
    push_cast
    ring
  · refine ⟨nearest (x / ulp x), ?_⟩
    have hlast : ulp (round x) = ulp x := by
      rw [hpow]
      refine ulp_eq ?_ ?_
      · rw [hplace _ 52 (by omega), hvalue]
        exact mul_le_mul_of_nonneg_right (Int.cast_le.mpr hlow) hulp.le
      · rw [hplace _ 53 (by omega), hvalue]
        have hlt : nearest (x / ulp x) < 2 ^ 53 := lt_of_le_of_ne hhigh hcarry
        exact mul_lt_mul_of_pos_right (Int.cast_lt.mpr hlt) hulp
    rw [hlast, ← hvalue]

/-- Between two numbers that have been rounded lies at least the last place of the smaller one. -/
theorem round_add_ulp_le (hx : 0 < x) (hy : 0 < y) (h : round x < round y) :
    round x + ulp (round x) ≤ round y := by
  have hulp := ulp_pos (round x)
  obtain ⟨m, hm⟩ := exists_round_eq hx
  obtain ⟨n, hn⟩ := exists_round_eq hy
  obtain ⟨k, hk⟩ := exists_ulp_eq (round_pos hx) h.le
  have hmultiple : round y = ((n * 2 ^ k : ℤ) : ℚ) * ulp (round x) := by
    rw [hn, hk]
    push_cast
    ring
  have hlt : m < n * 2 ^ k := by
    rw [hm, hmultiple] at h
    exact_mod_cast lt_of_mul_lt_mul_right h hulp.le
  calc round x + ulp (round x)
    _ = ((m + 1 : ℤ) : ℚ) * ulp (round x) := by
      rw [Int.cast_add, Int.cast_one, add_mul, one_mul, ← hm]
    _ ≤ ((n * 2 ^ k : ℤ) : ℚ) * ulp (round x) :=
      mul_le_mul_of_nonneg_right (Int.cast_le.mpr (Int.add_one_le_iff.mpr hlt)) hulp.le
    _ = round y := hmultiple.symm

/-! ## Integers up to 53 bits -/

theorem ofNat_zero : ofNat 0 = 0 := by rw [ofNat, Nat.cast_zero, round_zero]

theorem ofNat_pos {n : ℕ} (h : 0 < n) : 0 < ofNat n := round_pos (Nat.cast_pos.mpr h)

theorem ofNat_mono {m n : ℕ} (h : m ≤ n) : ofNat m ≤ ofNat n :=
  round_mono (Nat.cast_nonneg m) (Nat.cast_le.mpr h)

/-- An integer up to 2^53 is a number. -/
theorem ofNat_eq_self {n : ℕ} (h : n ≤ 2 ^ 53) : ofNat n = n := by
  obtain rfl | hpos := n.eq_zero_or_pos
  · rw [ofNat_zero, Nat.cast_zero]
  have hulp : ulp n = 2 ^ ((Nat.log 2 n : ℤ) - 52) := by
    rw [ulp, abs_of_nonneg (Nat.cast_nonneg n), Int.log_natCast]
  by_cases hlog : Nat.log 2 n ≤ 52
  · refine round_eq_self (n := n * 2 ^ (52 - Nat.log 2 n)) ?_
    rw [hulp]
    push_cast
    rw [mul_assoc, ← zpow_natCast, ← zpow_add₀ (by norm_num), Nat.cast_sub hlog]
    norm_num
  · -- it is 2^53 itself
    have hle : 2 ^ 53 ≤ n := Nat.pow_le_of_le_log hpos.ne' (by omega)
    have heq : n = 2 ^ 53 := le_antisymm h hle
    refine round_eq_self (n := 2 ^ 52) ?_
    rw [hulp, heq, Nat.log_pow (by decide)]
    norm_num

end SmartSfp.Lib.Float64
