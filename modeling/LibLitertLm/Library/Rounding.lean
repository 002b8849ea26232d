import Mathlib.Algebra.Order.Field.Power
import Mathlib.Algebra.Order.Floor.Ring
import Mathlib.Data.Int.Log
import Mathlib.Data.Rat.Floor
import Mathlib.Tactic.FieldSimp
import Mathlib.Tactic.Linarith
import Mathlib.Tactic.Positivity
import Mathlib.Tactic.Ring

namespace LibLitertLm.Rounding

def nearestEven (q : ℚ) : ℤ :=
  if Int.fract q < 1 / 2 ∨ Int.fract q = 1 / 2 ∧ Even ⌊q⌋ then ⌊q⌋ else ⌊q⌋ + 1

def ulp (p : ℕ) (q : ℚ) : ℚ := 2 ^ (Int.log 2 |q| - (p - 1 : ℤ))

def toPrecision (p : ℕ) (q : ℚ) : ℚ := nearestEven (q / ulp p q) * ulp p q

variable {p : ℕ} {q : ℚ} {m n : ℤ}

theorem le_nearestEven (h : m - 1 / 2 < q) : m ≤ nearestEven q := by
  have hfloor := Int.floor_add_fract q
  have hlt := Int.fract_lt_one q
  unfold nearestEven
  split_ifs with hdown
  · have hhalf : Int.fract q ≤ 1 / 2 := hdown.elim le_of_lt fun h ↦ h.1.le
    have hm : (m : ℚ) < ⌊q⌋ + 1 := by linarith
    have hm' : m < ⌊q⌋ + 1 := by exact_mod_cast hm
    omega
  · have hm : (m : ℚ) < ⌊q⌋ + 2 := by linarith
    have hm' : m < ⌊q⌋ + 2 := by exact_mod_cast hm
    omega

theorem nearestEven_le (h : q < m + 1 / 2) : nearestEven q ≤ m := by
  have hfloor := Int.floor_add_fract q
  have hpos := Int.fract_nonneg q
  unfold nearestEven
  split_ifs with hdown
  · have hm : (⌊q⌋ : ℚ) < m + 1 := by linarith
    have hm' : ⌊q⌋ < m + 1 := by exact_mod_cast hm
    omega
  · have hhalf : 1 / 2 ≤ Int.fract q := by
      by_contra hlt
      exact hdown (.inl (by linarith))
    have hm : (⌊q⌋ : ℚ) < m := by linarith
    have hm' : ⌊q⌋ < m := by exact_mod_cast hm
    omega

theorem nearestEven_intCast (m : ℤ) : nearestEven m = m :=
  le_antisymm (nearestEven_le (by linarith)) (le_nearestEven (by linarith))

theorem ulp_pos (p : ℕ) (q : ℚ) : 0 < ulp p q := by
  unfold ulp
  positivity

theorem ulp_le (hq : q ≠ 0) : ulp p q ≤ |q| * 2 ^ (1 - p : ℤ) := by
  have hlog := Int.zpow_log_le_self (b := 2) (by omega) (abs_pos.mpr hq)
  have hsplit : (Int.log 2 |q| - (p - 1 : ℤ)) = Int.log 2 |q| + (1 - p : ℤ) := by ring
  rw [ulp, hsplit, zpow_add₀ (by norm_num)]
  exact mul_le_mul_of_nonneg_right (by exact_mod_cast hlog) (by positivity)

theorem lt_ulp (p : ℕ) (q : ℚ) : |q| * 2 ^ (-p : ℤ) < ulp p q := by
  have hlog := Int.lt_zpow_succ_log_self (b := 2) (by omega) |q|
  have hsplit : (Int.log 2 |q| - (p - 1 : ℤ)) = (Int.log 2 |q| + 1) + (-p : ℤ) := by ring
  rw [ulp, hsplit, zpow_add₀ (by norm_num)]
  exact mul_lt_mul_of_pos_right (by exact_mod_cast hlog) (by positivity)

/-- Below `2 ^ p` the integers are among the numbers of `p` digits. -/
theorem int_eq_mul_ulp (hq : |q| < 2 ^ p) (hzero : q ≠ 0) (n : ℤ) :
    ∃ m : ℤ, (n : ℚ) = m * ulp p q := by
  have hlog : Int.log 2 |q| < p := by
    refine (Int.lt_zpow_iff_log_lt (by omega) (abs_pos.mpr hzero)).mp ?_
    exact_mod_cast hq
  obtain ⟨k, hk⟩ : ∃ k : ℕ, Int.log 2 |q| - (p - 1 : ℤ) = -k :=
    ⟨(-(Int.log 2 |q| - (p - 1 : ℤ))).toNat, by omega⟩
  refine ⟨n * 2 ^ k, ?_⟩
  rw [ulp, hk, zpow_neg, zpow_natCast]
  push_cast
  field_simp

/-- What is at least half a unit below an integer is not rounded below it. -/
theorem le_toPrecision (hq : |q| < 2 ^ p) (hzero : q ≠ 0)
    (h : n ≤ q + |q| * 2 ^ (-p : ℤ) / 2) : n ≤ toPrecision p q := by
  obtain ⟨m, hm⟩ := int_eq_mul_ulp hq hzero n
  have hulp := ulp_pos p q
  have hlt := lt_ulp p q
  rw [toPrecision, hm]
  refine mul_le_mul_of_nonneg_right ?_ hulp.le
  have hnear : (m : ℚ) - 1 / 2 < q / ulp p q := by
    rw [lt_div_iff₀ hulp, sub_mul, ← hm]
    linarith
  exact_mod_cast le_nearestEven hnear

theorem toPrecision_lt (hq : |q| < 2 ^ p) (hzero : q ≠ 0)
    (h : q + |q| * 2 ^ (1 - p : ℤ) / 2 < n) : toPrecision p q < n := by
  obtain ⟨m, hm⟩ := int_eq_mul_ulp hq hzero n
  have hulp := ulp_pos p q
  have hle := ulp_le (p := p) hzero
  rw [toPrecision, hm]
  refine mul_lt_mul_of_pos_right ?_ hulp
  have hnear : q / ulp p q < (m - 1 : ℤ) + 1 / 2 := by
    rw [div_lt_iff₀ hulp, add_mul, Int.cast_sub, sub_mul, ← hm]
    push_cast
    linarith
  have hlt : nearestEven (q / ulp p q) < m := by
    have hpred := nearestEven_le hnear
    omega
  exact_mod_cast hlt

theorem toPrecision_zero (p : ℕ) : toPrecision p 0 = 0 := by
  have hzero : nearestEven 0 = 0 := by exact_mod_cast nearestEven_intCast 0
  rw [toPrecision, zero_div, hzero]
  simp

theorem toPrecision_intCast (hn : |(n : ℚ)| < 2 ^ p) : toPrecision p n = n := by
  by_cases hzero : n = 0
  · rw [hzero, Int.cast_zero, toPrecision_zero]
  have hzero' : (n : ℚ) ≠ 0 := by exact_mod_cast hzero
  obtain ⟨m, hm⟩ := int_eq_mul_ulp hn hzero' n
  have hquotient : (n : ℚ) / ulp p n = m := by
    rw [div_eq_iff (ulp_pos p n).ne']
    exact hm
  rw [toPrecision, hquotient, nearestEven_intCast, ← hm]

end LibLitertLm.Rounding
