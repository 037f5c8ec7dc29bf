import Mathlib
import LangCore.Proofs.Decimal.Interval

/-!
# Shortest decimals are read as their number

Some grid with at most seventeen digits has a point that is read as the number:
two neighbouring points of the last grid are closer to each other than the ends
of the target. Dropping zeros at the end does not change the value.
-/

namespace LangCore
namespace Decimal

theorem value_trim (d : Decimal) : d.trim.value = d.value := by
  fun_induction trim d with
  | case1 d h ih =>
    have hdigits : d.digits = d.digits / 10 * 10 := by omega
    rw [ih, value, value, zpow_add_one₀ (by norm_num)]
    conv_rhs => rw [hdigits]
    push_cast
    ring
  | case2 => rfl

theorem lt_pow_digitCount (n : ℕ) : n < 10 ^ digitCount n :=
  (Nat.length_toDigits_le_iff (by decide) Nat.length_toDigits_pos).1 le_rfl

theorem digitCount_pos (n : ℕ) : 0 < digitCount n :=
  Nat.length_toDigits_pos

theorem pow_digitCount_pred_le {n : ℕ} (h : 0 < n) : 10 ^ (digitCount n - 1) ≤ n := by
  have hpos := digitCount_pos n
  by_contra hlt
  rcases Nat.eq_zero_or_pos (digitCount n - 1) with hzero | hpred
  · rw [hzero] at hlt
    omega
  · have hle : digitCount n ≤ digitCount n - 1 :=
      (Nat.length_toDigits_le_iff (by decide) hpred).2 (not_le.1 hlt)
    omega

namespace Target

/-- The number itself. -/
def center (t : Target) : ℚ :=
  t.value * 2 ^ t.scale

theorem floor_le (t : Target) (u : ℤ) : (t.floor u : ℚ) * 10 ^ u ≤ t.center := by
  rw [center, ← grid_le_units_iff]
  exact Nat.div_mul_le_self _ _

theorem gridFactor_pos (t : Target) (u : ℤ) : 0 < t.gridFactor u :=
  Nat.mul_pos (Nat.pow_pos (by decide)) (Nat.pow_pos (by decide))

theorem unitFactor_pos (t : Target) (u : ℤ) : 0 < t.unitFactor u :=
  Nat.mul_pos (Nat.pow_pos (by decide)) (Nat.pow_pos (by decide))

theorem lt_floor_succ (t : Target) (u : ℤ) : t.center < ((t.floor u + 1 : ℕ) : ℚ) * 10 ^ u := by
  rw [center, ← units_lt_grid_iff]
  exact (Nat.div_lt_iff_lt_mul (t.gridFactor_pos u)).1 (Nat.lt_succ_self _)

/-- The grid gives a point that is read as the number whenever one of the two points around the
number is. -/
theorem exists_onGrid {t : Target} {u : ℤ}
    (h : t.Contains (t.floor u * 10 ^ u) ∨ t.Contains ((t.floor u + 1 : ℕ) * 10 ^ u)) :
    ∃ d, t.onGrid u = some d := by
  rw [← holds_iff, ← holds_iff] at h
  rcases hbelow : t.holds u (t.floor u) with _ | _ <;>
    rcases habove : t.holds u (t.floor u + 1) with _ | _ <;>
    simp only [onGrid, hbelow, habove]
  · simp [hbelow, habove] at h
  · exact ⟨_, rfl⟩
  · exact ⟨_, rfl⟩
  · split <;> exact ⟨_, rfl⟩

theorem contains_of_onGrid {t : Target} {u : ℤ} {d : Decimal} (h : t.onGrid u = some d) :
    t.Contains d.value := by
  simp only [onGrid] at h
  split at h
  · cases h
  · rename_i hbelow _
    cases h
    exact (t.holds_iff _ _).1 hbelow
  · rename_i habove
    cases h
    exact (t.holds_iff _ _).1 habove
  · rename_i hbelow habove
    split at h
    · cases h
      exact (t.holds_iff _ _).1 hbelow
    · cases h
      exact (t.holds_iff _ _).1 habove

theorem pow_leadingExponent_le {t : Target} (h : 0 < t.value) :
    (10 : ℚ) ^ t.leadingExponent ≤ t.center := by
  have hunit : 0 < t.value * t.unitFactor 0 := Nat.mul_pos h (t.unitFactor_pos 0)
  simp only [leadingExponent]
  split
  · rename_i hle
    rw [center]
    simpa using (t.grid_le_units_iff _ t.value 1).1 (by simpa using hle)
  · have hnum : (10 : ℚ) ^ (digitCount (t.value * t.unitFactor 0) - 1) ≤
        t.value * t.unitFactor 0 := by
      exact_mod_cast pow_digitCount_pred_le hunit
    have hden : (t.gridFactor 0 : ℚ) ≤ 10 ^ digitCount (t.gridFactor 0) := by
      exact_mod_cast (lt_pow_digitCount (t.gridFactor 0)).le
    have hpos := digitCount_pos (t.value * t.unitFactor 0)
    have hgrid : (0 : ℚ) < t.gridFactor 0 := by
      exact_mod_cast t.gridFactor_pos 0
    have hcenter : (t.value : ℚ) * t.unitFactor 0 = t.center * t.gridFactor 0 := by
      rw [unitFactor_eq, gridFactor_eq, zpow_zero, one_mul, center, mul_assoc]
    refine le_of_mul_le_mul_right ?_ hgrid
    calc (10 : ℚ) ^
            ((digitCount (t.value * t.unitFactor 0) : ℤ) - digitCount (t.gridFactor 0) - 1) *
          t.gridFactor 0
        ≤ 10 ^ ((digitCount (t.value * t.unitFactor 0) : ℤ) - digitCount (t.gridFactor 0) - 1) *
          10 ^ digitCount (t.gridFactor 0) := by gcongr
      _ = 10 ^ (digitCount (t.value * t.unitFactor 0) - 1) := by
        rw [← zpow_natCast, ← zpow_natCast, ← zpow_add₀ (by norm_num)]
        congr 1
        omega
      _ ≤ t.value * t.unitFactor 0 := hnum
      _ = t.center * t.gridFactor 0 := hcenter

/-- One of two neighbours on a grid that is fine enough is read as the number. -/
theorem contains_floor_or_succ {x : Binary64} (h : x.rank ≠ 0) {u : ℤ}
    (hfine : (10 : ℚ) ^ u * 10 ^ 16 ≤ (of x).center) :
    (of x).Contains ((of x).floor u * 10 ^ u) ∨
      (of x).Contains (((of x).floor u + 1 : ℕ) * 10 ^ u) := by
  have hunit : (0 : ℚ) < 2 ^ (of x).scale := by positivity
  have hfloor := (of x).floor_le u
  have hsucc := (of x).lt_floor_succ u
  have hpos := Binary64.significand_pos h
  rw [Nat.cast_succ, add_one_mul] at hsucc ⊢
  set point := ((of x).floor u : ℚ) * 10 ^ u
  have hcenter : (of x).center = 4 * (x.significand * 2 ^ (of x).scale) := by
    rw [center, of]
    push_cast
    ring
  have hhigh : ((of x).high : ℚ) * 2 ^ (of x).scale = (of x).center + 2 * 2 ^ (of x).scale := by
    rw [hcenter, of]
    push_cast
    ring
  by_cases hnear : (of x).low * 2 ^ (of x).scale < point
  · exact Or.inl (contains_of_lt hnear (by linarith))
  · refine Or.inr ?_
    by_cases hstart : x.isBinadeStart = true
    · have hlow : ((of x).low : ℚ) * 2 ^ (of x).scale = (of x).center - 2 ^ (of x).scale := by
        rw [hcenter, of, if_pos hstart, Nat.cast_sub (by omega)]
        push_cast
        ring
      have hsize : (x.significand : ℚ) = 2 ^ 52 := by
        exact_mod_cast Binary64.significand_of_isBinadeStart hstart
      rw [hsize] at hcenter
      exact contains_of_lt (by linarith) (by linarith)
    · have hlow : ((of x).low : ℚ) * 2 ^ (of x).scale = (of x).center - 2 * 2 ^ (of x).scale := by
        rw [hcenter, of, if_neg hstart, Nat.cast_sub (by omega)]
        push_cast
        ring
      have hsize : (x.significand : ℚ) * 2 ^ (of x).scale < 2 ^ 53 * 2 ^ (of x).scale := by
        gcongr
        exact_mod_cast x.significand_lt
      exact contains_of_lt (by linarith) (by linarith)

end Target

/-- The shortest decimal of a number other than zero is read as the number. -/
theorem contains_shortest {x : Binary64} (h : x.rank ≠ 0) :
    (Target.of x).Contains (shortest x).value := by
  have hpos := Binary64.significand_pos h
  have hvalue : 0 < (Target.of x).value := by
    simp only [Target.of]
    omega
  have htop := Target.pow_leadingExponent_le hvalue
  have hfine : (10 : ℚ) ^ ((Target.of x).leadingExponent - (16 : ℕ)) * 10 ^ 16 ≤
      (Target.of x).center := by
    rw [← zpow_natCast, ← zpow_add₀ (by norm_num), sub_add_cancel]
    exact htop
  obtain ⟨d, hd⟩ := Target.exists_onGrid (Target.contains_floor_or_succ h hfine)
  unfold shortest
  simp only
  split
  · rename_i found hfound
    obtain ⟨n, -, hn⟩ := List.exists_of_findSome?_eq_some hfound
    rw [value_trim]
    exact Target.contains_of_onGrid hn
  · rename_i hnone
    have := List.findSome?_eq_none_iff.1 hnone 16 (by decide)
    rw [hd] at this
    cases this

end Decimal
end LangCore
