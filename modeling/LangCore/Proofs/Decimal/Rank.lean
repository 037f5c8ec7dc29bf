import Mathlib
import LangCore.Decimal.Binary64

/-!
# Ranks of magnitudes

Exponent and fraction of a binary64 number, read as one natural, count the
magnitudes below it. So magnitudes grow with the rank, each by one unit of its
own last place, and a number is determined by its sign and its rank.
-/

namespace LangCore
namespace Binary64

/-- The place of the magnitude in the order of all magnitudes. -/
def rank (x : Binary64) : ℕ :=
  x.exponentField * 2 ^ 52 + x.fraction

theorem isNegative_eq (x : Binary64) :
    x.isNegative = decide (x.bits.toNat / 2 ^ 63 = 1) := by
  rw [isNegative, beq_eq_decide]
  congr 1
  rw [← UInt64.toNat_inj, UInt64.toNat_shiftRight, Nat.shiftRight_eq_div_pow]
  rfl

theorem exponentField_eq (x : Binary64) :
    x.exponentField = x.bits.toNat / 2 ^ 52 % 2 ^ 11 := by
  have hmask : (x.bits >>> 52 &&& 0x7ff).toNat = (x.bits.toNat >>> 52) &&& 2 ^ 11 - 1 := by
    rw [UInt64.toNat_and, UInt64.toNat_shiftRight]
    rfl
  rw [exponentField, hmask, Nat.and_two_pow_sub_one_eq_mod, Nat.shiftRight_eq_div_pow]

theorem fraction_eq (x : Binary64) : x.fraction = x.bits.toNat % 2 ^ 52 := by
  have hmask : (x.bits &&& 0xfffffffffffff).toNat = x.bits.toNat &&& 2 ^ 52 - 1 := by
    rw [UInt64.toNat_and]
    rfl
  rw [fraction, hmask, Nat.and_two_pow_sub_one_eq_mod]

theorem fraction_lt (x : Binary64) : x.fraction < 2 ^ 52 := by
  rw [fraction_eq]
  exact Nat.mod_lt _ (by decide)

theorem rank_eq (x : Binary64) : x.rank = x.bits.toNat % 2 ^ 63 := by
  rw [rank, exponentField_eq, fraction_eq]
  omega

theorem rank_div (x : Binary64) : x.rank / 2 ^ 52 = x.exponentField := by
  have := x.fraction_lt
  rw [rank]
  omega

theorem rank_mod (x : Binary64) : x.rank % 2 ^ 52 = x.fraction := by
  have := x.fraction_lt
  rw [rank]
  omega

theorem eq_of_rank_eq {x y : Binary64} (hsign : x.isNegative = y.isNegative)
    (hrank : x.rank = y.rank) : x = y := by
  have hx := x.bits.toNat_lt
  have hy := y.bits.toNat_lt
  have hbits : x.bits.toNat = y.bits.toNat := by
    rw [isNegative_eq, isNegative_eq, decide_eq_decide] at hsign
    rw [rank_eq, rank_eq] at hrank
    omega
  obtain ⟨xbits⟩ := x
  obtain ⟨ybits⟩ := y
  exact congrArg Binary64.mk (UInt64.toNat_inj.1 hbits)

theorem isZero_iff_rank_eq_zero {x : Binary64} : x.isZero = true ↔ x.rank = 0 := by
  simp only [isZero, rank, Bool.and_eq_true, beq_iff_eq]
  omega

/-- The power of two in the last place of the magnitude of a rank. -/
def scaleAt (k : ℕ) : ℤ :=
  if k / 2 ^ 52 = 0 then -1074 else (k / 2 ^ 52 : ℕ) - 1075

def significandAt (k : ℕ) : ℕ :=
  if k / 2 ^ 52 = 0 then k % 2 ^ 52 else 2 ^ 52 + k % 2 ^ 52

def magnitudeAt (k : ℕ) : ℚ :=
  significandAt k * 2 ^ scaleAt k

theorem scaleAt_rank (x : Binary64) : scaleAt x.rank = x.scale := by
  rw [scaleAt, rank_div, scale]

theorem significandAt_rank (x : Binary64) : significandAt x.rank = x.significand := by
  rw [significandAt, rank_div, rank_mod]
  rfl

/-- In front of the next rank the significand grows by one, or it starts again with half of its
digits in the next binade. -/
theorem next_cases (k : ℕ) :
    (scaleAt (k + 1) = scaleAt k ∧ significandAt (k + 1) = significandAt k + 1) ∨
      (scaleAt (k + 1) = scaleAt k + 1 ∧ significandAt (k + 1) = 2 ^ 52 ∧
        significandAt k = 2 ^ 53 - 1) := by
  by_cases hfraction : k % 2 ^ 52 + 1 < 2 ^ 52
  · have hdiv : (k + 1) / 2 ^ 52 = k / 2 ^ 52 := by omega
    have hmod : (k + 1) % 2 ^ 52 = k % 2 ^ 52 + 1 := by omega
    refine Or.inl ⟨by rw [scaleAt, scaleAt, hdiv], ?_⟩
    rw [significandAt, significandAt, hdiv, hmod]
    split <;> omega
  · have hdiv : (k + 1) / 2 ^ 52 = k / 2 ^ 52 + 1 := by omega
    have hmod : (k + 1) % 2 ^ 52 = 0 := by omega
    have hlast : k % 2 ^ 52 = 2 ^ 52 - 1 := by omega
    rw [scaleAt, scaleAt, significandAt, significandAt, hdiv, hmod, hlast]
    by_cases hzero : k / 2 ^ 52 = 0
    · left
      rw [hzero]
      norm_num
    · right
      simp only [hzero, Nat.succ_ne_zero, if_false]
      refine ⟨by push_cast; ring, by norm_num, by norm_num⟩

/-- Neighbours are one unit of the last place of the smaller one apart. -/
theorem magnitudeAt_succ (k : ℕ) : magnitudeAt (k + 1) = magnitudeAt k + 2 ^ scaleAt k := by
  rw [magnitudeAt, magnitudeAt]
  rcases next_cases k with ⟨hscale, hsignificand⟩ | ⟨hscale, hnext, hlast⟩
  · rw [hscale, hsignificand]
    push_cast
    ring
  · rw [hscale, hnext, hlast, zpow_add_one₀ (by norm_num)]
    push_cast
    ring

theorem magnitudeAt_strictMono : StrictMono magnitudeAt := by
  refine strictMono_nat_of_lt_succ fun k => ?_
  rw [magnitudeAt_succ]
  have : (0 : ℚ) < 2 ^ scaleAt k := by positivity
  linarith

theorem significandAt_mod_two (k : ℕ) : significandAt k % 2 = k % 2 := by
  rw [significandAt]
  split <;> omega

end Binary64
end LangCore
