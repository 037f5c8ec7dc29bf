import Mathlib
import LangCore.Decimal.Shortest
import LangCore.Proofs.Decimal.Rank

/-!
# Numbers that a decimal is read as

The target of a number reaches from the middle between it and the magnitude
before it to the middle between it and the magnitude behind it. Targets of
different ranks meet in one point at most, which belongs to only one of them, so
a point of a target gives the rank away.
-/

namespace LangCore

open Binary64 (magnitudeAt scaleAt significandAt)

namespace Decimal

def value (d : Decimal) : ℚ :=
  d.digits * 10 ^ d.exponent

namespace Target

/-- Whether a magnitude is read as the number. -/
def Contains (t : Target) (r : ℚ) : Prop :=
  if t.closed then t.low * 2 ^ t.scale ≤ r ∧ r ≤ t.high * 2 ^ t.scale
  else t.low * 2 ^ t.scale < r ∧ r < t.high * 2 ^ t.scale

theorem contains_of_lt {t : Target} {r : ℚ} (hlow : t.low * 2 ^ t.scale < r)
    (hhigh : r < t.high * 2 ^ t.scale) : t.Contains r := by
  unfold Contains
  split
  · exact ⟨hlow.le, hhigh.le⟩
  · exact ⟨hlow, hhigh⟩

/-- What both sides of a scaled comparison are multiplied with. -/
def commonFactor (t : Target) (u : ℤ) : ℚ :=
  10 ^ (-u).toNat * 2 ^ (-t.scale).toNat

theorem commonFactor_pos (t : Target) (u : ℤ) : 0 < t.commonFactor u := by
  unfold commonFactor
  positivity

theorem zpow_mul_toNat_neg {b : ℚ} (hb : b ≠ 0) (n : ℤ) :
    b ^ n * b ^ (-n).toNat = b ^ n.toNat := by
  rw [← zpow_natCast, ← zpow_natCast, ← zpow_add₀ hb]
  congr 1
  omega

theorem gridFactor_eq (t : Target) (u : ℤ) :
    (t.gridFactor u : ℚ) = 10 ^ u * t.commonFactor u := by
  rw [commonFactor, ← mul_assoc, zpow_mul_toNat_neg (by norm_num)]
  simp [gridFactor]

theorem unitFactor_eq (t : Target) (u : ℤ) :
    (t.unitFactor u : ℚ) = 2 ^ t.scale * t.commonFactor u := by
  rw [commonFactor, mul_left_comm, zpow_mul_toNat_neg (by norm_num), mul_comm]
  simp [unitFactor]

theorem units_le_grid_iff (t : Target) (u : ℤ) (n d : ℕ) :
    n * t.unitFactor u ≤ d * t.gridFactor u ↔ (n : ℚ) * 2 ^ t.scale ≤ d * 10 ^ u := by
  rw [← Nat.cast_le (α := ℚ), Nat.cast_mul, Nat.cast_mul, gridFactor_eq, unitFactor_eq,
    ← mul_assoc, ← mul_assoc, mul_le_mul_iff_left₀ (t.commonFactor_pos u)]

theorem grid_le_units_iff (t : Target) (u : ℤ) (n d : ℕ) :
    d * t.gridFactor u ≤ n * t.unitFactor u ↔ (d : ℚ) * 10 ^ u ≤ n * 2 ^ t.scale := by
  rw [← Nat.cast_le (α := ℚ), Nat.cast_mul, Nat.cast_mul, gridFactor_eq, unitFactor_eq,
    ← mul_assoc, ← mul_assoc, mul_le_mul_iff_left₀ (t.commonFactor_pos u)]

theorem units_lt_grid_iff (t : Target) (u : ℤ) (n d : ℕ) :
    n * t.unitFactor u < d * t.gridFactor u ↔ (n : ℚ) * 2 ^ t.scale < d * 10 ^ u := by
  rw [← not_le, grid_le_units_iff, not_le]

theorem grid_lt_units_iff (t : Target) (u : ℤ) (n d : ℕ) :
    d * t.gridFactor u < n * t.unitFactor u ↔ (d : ℚ) * 10 ^ u < n * 2 ^ t.scale := by
  rw [← not_le, units_le_grid_iff, not_le]

theorem holds_iff (t : Target) (u : ℤ) (d : ℕ) :
    t.holds u d = true ↔ t.Contains (d * 10 ^ u) := by
  unfold holds Contains
  split
  · rw [Bool.and_eq_true, decide_eq_true_eq, decide_eq_true_eq, units_le_grid_iff,
      grid_le_units_iff]
  · rw [Bool.and_eq_true, decide_eq_true_eq, decide_eq_true_eq, units_lt_grid_iff,
      grid_lt_units_iff]

end Target
end Decimal

namespace Binary64

variable {x y : Binary64}

theorem significand_lt (x : Binary64) : x.significand < 2 ^ 53 := by
  have := x.fraction_lt
  unfold significand
  split <;> omega

theorem significand_pos (h : x.rank ≠ 0) : 0 < x.significand := by
  unfold significand
  unfold rank at h
  split <;> omega

theorem significand_of_isBinadeStart (h : x.isBinadeStart = true) :
    x.significand = 2 ^ 52 := by
  simp only [isBinadeStart, Bool.and_eq_true, beq_iff_eq, decide_eq_true_eq] at h
  rw [significand, if_neg (by omega), h.1]
  norm_num

/-- In front of the first number of a binade the numbers lie twice as close. -/
theorem scaleAt_pred (h : x.rank ≠ 0) :
    scaleAt (x.rank - 1) = if x.isBinadeStart then x.scale - 1 else x.scale := by
  have hfraction := x.fraction_lt
  by_cases hstart : x.isBinadeStart = true
  · rw [if_pos hstart]
    simp only [isBinadeStart, Bool.and_eq_true, beq_iff_eq, decide_eq_true_eq] at hstart
    have hdiv : (x.rank - 1) / 2 ^ 52 = x.exponentField - 1 := by
      rw [rank]
      omega
    rw [scaleAt, hdiv, scale, if_neg (by omega), if_neg (by omega)]
    omega
  · rw [if_neg hstart]
    simp only [isBinadeStart, Bool.and_eq_true, beq_iff_eq, decide_eq_true_eq, not_and] at hstart
    rw [rank] at h
    by_cases hzero : x.fraction = 0
    · have hone : x.exponentField = 1 := by
        have := hstart hzero
        omega
      have hdiv : (x.rank - 1) / 2 ^ 52 = 0 := by
        rw [rank]
        omega
      rw [scaleAt, hdiv, scale, hone]
      norm_num
    · have hdiv : (x.rank - 1) / 2 ^ 52 = x.exponentField := by
        rw [rank]
        omega
      rw [scaleAt, hdiv, scale]

theorem two_zpow_sub_two (q : ℤ) : (2 : ℚ) ^ (q - 2) = 2 ^ q / 4 := by
  rw [zpow_sub₀ (by norm_num)]
  norm_num

theorem magnitudeAt_rank (x : Binary64) : magnitudeAt x.rank = x.significand * 2 ^ x.scale := by
  rw [magnitudeAt, significandAt_rank, scaleAt_rank]

end Binary64

namespace Decimal.Target

open Binary64

variable {x y : Binary64}

theorem high_of (x : Binary64) :
    ((of x).high : ℚ) * 2 ^ (of x).scale = (magnitudeAt x.rank + magnitudeAt (x.rank + 1)) / 2 := by
  rw [magnitudeAt_succ, magnitudeAt_rank, scaleAt_rank]
  simp only [of, two_zpow_sub_two]
  push_cast
  ring

theorem low_of (h : x.rank ≠ 0) :
    ((of x).low : ℚ) * 2 ^ (of x).scale = (magnitudeAt (x.rank - 1) + magnitudeAt x.rank) / 2 := by
  have hpos := significand_pos h
  have hsucc := magnitudeAt_succ (x.rank - 1)
  rw [Nat.sub_add_cancel (Nat.one_le_iff_ne_zero.2 h), scaleAt_pred h, magnitudeAt_rank] at hsucc
  rw [magnitudeAt_rank, ← sub_eq_iff_eq_add.2 hsucc]
  simp only [of, two_zpow_sub_two]
  by_cases hstart : x.isBinadeStart = true
  · rw [if_pos hstart, if_pos hstart, Nat.cast_sub (by omega), zpow_sub_one₀ (by norm_num)]
    push_cast
    ring
  · rw [if_neg hstart, if_neg hstart, Nat.cast_sub (by omega)]
    push_cast
    ring

theorem closed_of (x : Binary64) : (of x).closed = true ↔ x.rank % 2 = 0 := by
  rw [← significandAt_mod_two, significandAt_rank]
  simp [of]

theorem not_contains_of_rank_lt (hlt : x.rank < y.rank) {r : ℚ} (hy : (of y).Contains r) :
    ¬(of x).Contains r := by
  intro hx
  by_cases hneighbours : y.rank = x.rank + 1
  · have hodd : (of x).closed = true → ¬(of y).closed = true := by
      rw [closed_of, closed_of]
      omega
    have hmiddle : ((of x).high : ℚ) * 2 ^ (of x).scale = (of y).low * 2 ^ (of y).scale := by
      rw [high_of, low_of (by omega), hneighbours, Nat.add_sub_cancel]
    unfold Contains at hx hy
    split at hx
    · rename_i hclosed
      rw [if_neg (hodd hclosed)] at hy
      linarith
    · split at hy <;> linarith
  · have hbelow : magnitudeAt x.rank < magnitudeAt (y.rank - 1) :=
      magnitudeAt_strictMono (by omega)
    have habove : magnitudeAt (x.rank + 1) < magnitudeAt y.rank :=
      magnitudeAt_strictMono (by omega)
    have hhigh : r ≤ (of x).high * 2 ^ (of x).scale := by
      unfold Contains at hx
      split at hx
      · exact hx.2
      · exact hx.2.le
    have hlow : (of y).low * 2 ^ (of y).scale ≤ r := by
      unfold Contains at hy
      split at hy
      · exact hy.1
      · exact hy.1.le
    rw [high_of] at hhigh
    rw [low_of (by omega)] at hlow
    linarith

theorem not_contains_zero (h : x.rank ≠ 0) : ¬(of x).Contains 0 := by
  have hpos := significand_pos h
  have hlow : (0 : ℚ) < (of x).low * 2 ^ (of x).scale := by
    refine mul_pos (Nat.cast_pos.2 ?_) (by positivity)
    simp only [of]
    split <;> omega
  intro hzero
  unfold Contains at hzero
  split at hzero <;> linarith

/-- A magnitude is read as at most one number. -/
theorem rank_eq_of_contains {r : ℚ} (hx : (of x).Contains r) (hy : (of y).Contains r) :
    x.rank = y.rank := by
  rcases lt_trichotomy x.rank y.rank with hlt | heq | hgt
  · exact absurd hx (not_contains_of_rank_lt hlt hy)
  · exact heq
  · exact absurd hy (not_contains_of_rank_lt hgt hx)

end Decimal.Target
end LangCore
