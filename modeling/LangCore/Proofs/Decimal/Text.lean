import Mathlib
import LangCore.Decimal.Style
import LangCore.Proofs.Decimal.Shortest
import LangCore.Proofs.Lexeme

/-!
# Number texts are read as their number

The text of a decimal stands for its value, wherever the point is written and
whether or not an exponent follows. As the value of the shortest decimal gives
the magnitude away, no two finite numbers are written alike.
-/

namespace LangCore
namespace DecimalStyle

/-- The number that digits with at most one point among them stand for. -/
def fixedPointValue (s : List Char) : ℚ :=
  Nat.ofDigitChars 10 (s.filter (· != '.')) 0 / 10 ^ (s.dropWhile (· != '.')).tail.length

/-- The power of ten behind an `e`. -/
def exponentValue : List Char → ℤ
  | 'e' :: s => (String.ofList s).toInt?.getD 0
  | _ => 0

/-- The number that a text without a sign stands for. -/
def textValue (s : List Char) : ℚ :=
  fixedPointValue (s.takeWhile (· != 'e')) * 10 ^ exponentValue (s.dropWhile (· != 'e'))

def AllDigits (s : List Char) : Prop :=
  ∀ c ∈ s, c.isDigit = true

theorem AllDigits.append {s t : List Char} (hs : AllDigits s) (ht : AllDigits t) :
    AllDigits (s ++ t) :=
  List.forall_mem_append.2 ⟨hs, ht⟩

theorem AllDigits.cons {c : Char} {s : List Char} (hc : c.isDigit = true) (hs : AllDigits s) :
    AllDigits (c :: s) :=
  List.forall_mem_cons.2 ⟨hc, hs⟩

theorem AllDigits.bne {s : List Char} (h : AllDigits s) {d : Char} (hd : d.isDigit = false) :
    ∀ c ∈ s, (c != d) = true := by
  intro c hc
  rw [bne_iff_ne]
  rintro rfl
  exact absurd (h c hc) (by rw [hd]; exact Bool.false_ne_true)

theorem allDigits_toDigits (n : ℕ) : AllDigits (Nat.toDigits 10 n) :=
  fun _ hc => Nat.isDigit_of_mem_toDigits (by decide) (by decide) hc

theorem allDigits_zeros (n : ℕ) : AllDigits (zeros n) := by
  intro c hc
  obtain rfl := List.eq_of_mem_replicate hc
  rfl

theorem mem_toString_int {n : ℤ} {c : Char} (h : c ∈ (toString n).toList) :
    c.isDigit = true ∨ c = '-' := by
  rw [Int.toString_eq_repr, Int.repr_eq_if] at h
  split at h
  · rw [Nat.toList_repr] at h
    exact Or.inl (allDigits_toDigits _ c h)
  · rw [String.toList_append, Nat.toList_repr] at h
    rcases List.mem_append.1 h with h | h
    · exact Or.inr (List.mem_singleton.1 h)
    · exact Or.inl (allDigits_toDigits _ c h)

theorem toString_int_ne_empty (n : ℤ) : (toString n).toList ≠ [] := by
  rw [Int.toString_eq_repr, Int.repr_eq_if]
  split <;> simp

theorem fixedPointValue_digits {s : List Char} (h : AllDigits s) :
    fixedPointValue s = Nat.ofDigitChars 10 s 0 := by
  have hpoint := h.bne (d := '.') rfl
  have hdrop : s.dropWhile (· != '.') = [] := List.dropWhile_eq_nil_iff.2 hpoint
  rw [fixedPointValue, List.filter_eq_self.2 hpoint, hdrop]
  simp

theorem fixedPointValue_point {s t : List Char} (hs : AllDigits s) (ht : AllDigits t) :
    fixedPointValue (s ++ '.' :: t) = Nat.ofDigitChars 10 (s ++ t) 0 / 10 ^ t.length := by
  have hdrop : (s ++ '.' :: t).dropWhile (· != '.') = '.' :: t :=
    dropWhile_append_of_stop (hs.bne rfl) (by rintro c ⟨⟩; rfl)
  rw [fixedPointValue, hdrop, List.filter_append,
    List.filter_cons_of_neg (by simp), List.filter_eq_self.2 (hs.bne rfl),
    List.filter_eq_self.2 (ht.bne rfl), List.tail_cons]

theorem ofDigitChars_append_zeros (s : List Char) (n : ℕ) :
    (Nat.ofDigitChars 10 (s ++ zeros n) 0 : ℚ) = Nat.ofDigitChars 10 s 0 * 10 ^ n := by
  rw [Nat.ofDigitChars_append, zeros, Nat.ofDigitChars_replicate_zero]
  push_cast
  ring

theorem ofDigitChars_zeros_append (s : List Char) (n : ℕ) :
    Nat.ofDigitChars 10 (zeros n ++ s) 0 = Nat.ofDigitChars 10 s 0 := by
  rw [Nat.ofDigitChars_append, zeros, Nat.ofDigitChars_replicate_zero, Nat.mul_zero]

/-- The point moves the digits by as many places as stand in front of it. -/
theorem fixedPointValue_positionalText (style : DecimalStyle) {digits : List Char}
    (h : AllDigits digits) (point : ℤ) :
    fixedPointValue (style.positionalText digits point) =
      Nat.ofDigitChars 10 digits 0 * 10 ^ (point - digits.length) := by
  unfold positionalText
  split
  · rename_i hpoint
    have hzeros := (allDigits_zeros (-point).toNat).append h
    have hplaces : point - digits.length = -((zeros (-point).toNat ++ digits).length : ℤ) := by
      rw [List.length_append, zeros, List.length_replicate]
      omega
    have hvalue := fixedPointValue_point (s := ['0']) (AllDigits.cons rfl (by rintro c ⟨⟩)) hzeros
    simp only [List.cons_append, List.nil_append] at hvalue ⊢
    rw [hvalue, hplaces, zpow_neg, zpow_natCast, div_eq_mul_inv,
      show '0' :: (zeros (-point).toNat ++ digits) = zeros ((-point).toNat + 1) ++ digits from rfl,
      ofDigitChars_zeros_append]
  · split
    · rename_i hpoint hshort
      have hplaces : point - digits.length = ((point.toNat - digits.length : ℕ) : ℤ) := by
        omega
      have hdigits := h.append (allDigits_zeros (point.toNat - digits.length))
      rw [hplaces, zpow_natCast, ← ofDigitChars_append_zeros]
      split
      · have hvalue := fixedPointValue_point hdigits (allDigits_zeros 1)
        rw [ofDigitChars_append_zeros] at hvalue
        simpa [zeros] using hvalue
      · rw [List.append_nil, fixedPointValue_digits hdigits]
    · rename_i hpoint hlong
      have hplaces : point - digits.length = -((digits.drop point.toNat).length : ℤ) := by
        rw [List.length_drop]
        omega
      rw [fixedPointValue_point (fun c hc => h c (List.mem_of_mem_take hc))
        (fun c hc => h c (List.mem_of_mem_drop hc)), List.take_append_drop, hplaces, zpow_neg,
        zpow_natCast, div_eq_mul_inv]

/-- Digits and points. -/
def FixedPoint (s : List Char) : Prop :=
  ∀ c ∈ s, c.isDigit = true ∨ c = '.'

theorem AllDigits.fixedPoint {s : List Char} (h : AllDigits s) : FixedPoint s :=
  fun c hc => Or.inl (h c hc)

theorem FixedPoint.append {s t : List Char} (hs : FixedPoint s) (ht : FixedPoint t) :
    FixedPoint (s ++ t) :=
  List.forall_mem_append.2 ⟨hs, ht⟩

theorem FixedPoint.point_cons {s : List Char} (h : FixedPoint s) : FixedPoint ('.' :: s) :=
  List.forall_mem_cons.2 ⟨Or.inr rfl, h⟩

theorem FixedPoint.bne {s : List Char} (h : FixedPoint s) : ∀ c ∈ s, (c != 'e') = true := by
  intro c hc
  rw [bne_iff_ne]
  rintro rfl
  exact absurd (h 'e' hc) (by decide)

theorem textValue_fixedPoint {s : List Char} (h : FixedPoint s) :
    textValue s = fixedPointValue s := by
  have htake : s.takeWhile (· != 'e') = s := List.takeWhile_eq_self_iff.2 h.bne
  have hdrop : s.dropWhile (· != 'e') = [] := List.dropWhile_eq_nil_iff.2 h.bne
  rw [textValue, htake, hdrop, exponentValue, zpow_zero, mul_one]
  rintro s ⟨⟩

theorem textValue_exponent {s : List Char} (h : FixedPoint s) (k : ℤ) :
    textValue (s ++ 'e' :: (toString k).toList) = fixedPointValue s * 10 ^ k := by
  have hstop : ∀ c ∈ ('e' :: (toString k).toList).head?, (c != 'e') = false := by
    rintro c ⟨⟩
    rfl
  rw [textValue, takeWhile_append_of_stop h.bne hstop, dropWhile_append_of_stop h.bne hstop,
    exponentValue, String.ofList_toList, Int.toString_eq_repr, Int.toInt?_repr, Option.getD_some]

theorem fixedPoint_positionalText (style : DecimalStyle) {digits : List Char}
    (h : AllDigits digits) (point : ℤ) : FixedPoint (style.positionalText digits point) := by
  unfold positionalText
  split
  · have hzeros := ((allDigits_zeros (-point).toNat).append h).fixedPoint
    exact List.forall_mem_cons.2 ⟨Or.inl rfl, hzeros.point_cons⟩
  · split
    · have hdigits := (h.append (allDigits_zeros (point.toNat - digits.length))).fixedPoint
      refine hdigits.append ?_
      split
      · exact ((allDigits_zeros 1).fixedPoint).point_cons
      · rintro c ⟨⟩
    · intro c hc
      rcases List.mem_append.1 hc with hc | hc
      · exact Or.inl (h c (List.mem_of_mem_take hc))
      · rcases List.mem_cons.1 hc with rfl | hc
        · exact Or.inr rfl
        · exact Or.inl (h c (List.mem_of_mem_drop hc))

theorem exists_exponentText {digits : List Char} (h : AllDigits digits) (hne : digits ≠ [])
    (point : ℤ) : ∃ s, exponentText digits point = s ++ 'e' :: (toString (point - 1)).toList ∧
      FixedPoint s ∧ s.head? = digits.head? ∧
      fixedPointValue s = Nat.ofDigitChars 10 digits 0 / 10 ^ (digits.length - 1) := by
  obtain ⟨first, rest, rfl⟩ := List.exists_cons_of_ne_nil hne
  obtain ⟨hfirst, hrest⟩ := List.forall_mem_cons.1 h
  have hhead : AllDigits [first] := List.forall_mem_singleton.2 hfirst
  cases rest with
  | nil =>
    refine ⟨[first], by simp [exponentText], hhead.fixedPoint, rfl, ?_⟩
    rw [fixedPointValue_digits hhead]
    simp
  | cons second rest =>
    refine ⟨first :: '.' :: second :: rest, by simp [exponentText], ?_, rfl, ?_⟩
    · exact hhead.fixedPoint.append (AllDigits.fixedPoint hrest).point_cons
    · exact fixedPointValue_point hhead hrest

theorem textValue_decimalText (style : DecimalStyle) (d : Decimal) :
    textValue (style.decimalText d) = d.value := by
  have hdigits := allDigits_toDigits d.digits
  have hpos : 0 < (Nat.toDigits 10 d.digits).length := Nat.length_toDigits_pos
  simp only [decimalText]
  split
  · rw [textValue_fixedPoint (fixedPoint_positionalText style hdigits _),
      fixedPointValue_positionalText style hdigits, Nat.ofDigitChars_ten_toDigits,
      add_sub_cancel_right, Decimal.value]
  · obtain ⟨s, htext, hs, -, hvalue⟩ := exists_exponentText hdigits Nat.toDigits_ne_nil
      (d.exponent + (Nat.toDigits 10 d.digits).length)
    have hplaces : d.exponent + (Nat.toDigits 10 d.digits).length - 1 =
        ((Nat.toDigits 10 d.digits).length - 1 : ℕ) + d.exponent := by
      omega
    rw [htext, textValue_exponent hs, hvalue, Nat.ofDigitChars_ten_toDigits, hplaces,
      zpow_add₀ (by norm_num), zpow_natCast, ← mul_assoc, div_mul_cancel₀ _ (by positivity),
      Decimal.value]

theorem head?_positionalText (style : DecimalStyle) {digits : List Char} (h : AllDigits digits)
    (hne : digits ≠ []) (point : ℤ) :
    ∃ c ∈ (style.positionalText digits point).head?, c.isDigit = true := by
  obtain ⟨first, rest, rfl⟩ := List.exists_cons_of_ne_nil hne
  obtain ⟨hfirst, hrest⟩ := List.forall_mem_cons.1 h
  unfold positionalText
  split
  · exact ⟨'0', rfl, rfl⟩
  · split
    · exact ⟨first, rfl, hfirst⟩
    · refine ⟨first, ?_, hfirst⟩
      rw [List.take_cons (by omega)]
      rfl

theorem head?_decimalText (style : DecimalStyle) (d : Decimal) :
    ∃ c ∈ (style.decimalText d).head?, c.isDigit = true := by
  have hdigits := allDigits_toDigits d.digits
  have hne : Nat.toDigits 10 d.digits ≠ [] := Nat.toDigits_ne_nil
  simp only [decimalText]
  split
  · exact head?_positionalText style hdigits hne _
  · obtain ⟨first, rest, hcons⟩ := List.exists_cons_of_ne_nil hne
    obtain ⟨s, htext, -, hhead, -⟩ := exists_exponentText hdigits hne
      (d.exponent + (Nat.toDigits 10 d.digits).length)
    rw [hcons] at hhead hdigits
    rw [htext, List.head?_append, hhead]
    exact ⟨first, rfl, hdigits first List.mem_cons_self⟩

theorem magnitudeText_of_isZero (style : DecimalStyle) {x : Binary64} (hfinite : x.isFinite = true)
    (h : x.isZero = true) : style.magnitudeText x = style.positionalText (zeros 1) 1 := by
  rw [magnitudeText, if_neg (by simpa [Binary64.isFinite] using hfinite), if_pos h]
  cases hpoint : style.keepsPoint <;> simp [positionalText, zeros, hpoint]

theorem magnitudeText_of_not_isZero (style : DecimalStyle) {x : Binary64}
    (hfinite : x.isFinite = true) (h : x.isZero = false) :
    style.magnitudeText x = style.decimalText (Decimal.shortest x) := by
  rw [magnitudeText, if_neg (by simpa [Binary64.isFinite] using hfinite),
    if_neg (by rw [h]; exact Bool.false_ne_true)]

theorem head?_magnitudeText (style : DecimalStyle) {x : Binary64} (h : x.isFinite = true) :
    ∃ c ∈ (style.magnitudeText x).head?, c.isDigit = true := by
  rcases hzero : x.isZero with _ | _
  · rw [magnitudeText_of_not_isZero style h hzero]
    exact head?_decimalText style _
  · rw [magnitudeText_of_isZero style h hzero]
    exact head?_positionalText style (allDigits_zeros 1) (by decide) 1

theorem textValue_magnitudeText_of_isZero (style : DecimalStyle) {x : Binary64}
    (hfinite : x.isFinite = true) (h : x.isZero = true) :
    textValue (style.magnitudeText x) = 0 := by
  rw [magnitudeText_of_isZero style hfinite h,
    textValue_fixedPoint (fixedPoint_positionalText style (allDigits_zeros 1) 1),
    fixedPointValue_positionalText style (allDigits_zeros 1), zeros,
    Nat.ofDigitChars_replicate_zero]
  simp

theorem contains_textValue_magnitudeText (style : DecimalStyle) {x : Binary64}
    (hfinite : x.isFinite = true) (h : x.rank ≠ 0) :
    (Decimal.Target.of x).Contains (textValue (style.magnitudeText x)) := by
  have hzero : x.isZero = false := by
    rw [← Bool.not_eq_true, Binary64.isZero_iff_rank_eq_zero]
    exact h
  rw [magnitudeText_of_not_isZero style hfinite hzero, textValue_decimalText]
  exact Decimal.contains_shortest h

theorem rank_eq_of_magnitudeText_eq {style : DecimalStyle} {x y : Binary64}
    (hx : x.isFinite = true) (hy : y.isFinite = true)
    (h : style.magnitudeText x = style.magnitudeText y) : x.rank = y.rank := by
  by_cases hxrank : x.rank = 0
  · by_cases hyrank : y.rank = 0
    · rw [hxrank, hyrank]
    · have hcontains := contains_textValue_magnitudeText style hy hyrank
      rw [← h, textValue_magnitudeText_of_isZero style hx
        (Binary64.isZero_iff_rank_eq_zero.2 hxrank)] at hcontains
      exact absurd hcontains (Decimal.Target.not_contains_zero hyrank)
  · have hcontains := contains_textValue_magnitudeText style hx hxrank
    by_cases hyrank : y.rank = 0
    · rw [h, textValue_magnitudeText_of_isZero style hy
        (Binary64.isZero_iff_rank_eq_zero.2 hyrank)] at hcontains
      exact absurd hcontains (Decimal.Target.not_contains_zero hxrank)
    · rw [h] at hcontains
      exact Decimal.Target.rank_eq_of_contains hcontains
        (contains_textValue_magnitudeText style hy hyrank)

end DecimalStyle

namespace Binary64

theorem isNaN_of_isFinite {x : Binary64} (h : x.isFinite = true) : x.isNaN = false := by
  simp only [isFinite, Bool.not_eq_true'] at h
  rw [isNaN, h, Bool.false_and]

theorem toList_exactText {x : Binary64} (h : x.isFinite = true) :
    x.exactText.toList =
      (if x.isNegative then ['-'] else []) ++ DecimalStyle.exact.magnitudeText x := by
  simp [exactText, DecimalStyle.text, isNaN_of_isFinite h]

/-- Finite numbers are written alike only if they are the same. -/
theorem exactText_injective {x y : Binary64} (hx : x.isFinite = true) (hy : y.isFinite = true)
    (h : x.exactText = y.exactText) : x = y := by
  have htext := congrArg String.toList h
  rw [toList_exactText hx, toList_exactText hy] at htext
  obtain ⟨c, hc, hcdigit⟩ := DecimalStyle.head?_magnitudeText .exact hx
  obtain ⟨d, hd, hddigit⟩ := DecimalStyle.head?_magnitudeText .exact hy
  rcases hxsign : x.isNegative with _ | _ <;> rcases hysign : y.isNegative with _ | _ <;>
    simp only [hxsign, hysign, if_true, if_false, List.nil_append, Bool.false_eq_true] at htext
  · exact eq_of_rank_eq (hxsign.trans hysign.symm)
      (DecimalStyle.rank_eq_of_magnitudeText_eq hx hy htext)
  · rw [htext] at hc
    cases hc
    exact absurd hcdigit (by decide)
  · rw [← htext] at hd
    cases hd
    exact absurd hddigit (by decide)
  · exact eq_of_rank_eq (hxsign.trans hysign.symm)
      (DecimalStyle.rank_eq_of_magnitudeText_eq hx hy (List.cons.inj htext).2)

theorem exactText_of_not_isFinite {x : Binary64} (h : x.isFinite = false) :
    x.exactText ∈ ["NaN", "inf", "-inf"] := by
  have hexceptional : x.isExceptional = true := by simpa [isFinite] using h
  rw [exactText, DecimalStyle.text, DecimalStyle.magnitudeText, if_pos hexceptional]
  cases x.isNaN <;> cases x.isNegative <;> decide

/-- A number starts with a digit or a minus sign. -/
theorem head?_exactText {x : Binary64} (h : x.isFinite = true) :
    ∃ c ∈ x.exactText.toList.head?, c.isDigit = true ∨ c = '-' := by
  rw [toList_exactText h]
  split
  · exact ⟨'-', rfl, Or.inr rfl⟩
  · obtain ⟨c, hc, hdigit⟩ := DecimalStyle.head?_magnitudeText .exact h
    exact ⟨c, hc, Or.inl hdigit⟩

theorem mem_decimalText {style : DecimalStyle} {d : Decimal} {c : Char}
    (h : c ∈ style.decimalText d) : c.isDigit = true ∨ c ∈ ['-', '.', 'e'] := by
  have hdigits := DecimalStyle.allDigits_toDigits d.digits
  have hfixed {s : List Char} (hs : DecimalStyle.FixedPoint s) (hc : c ∈ s) :
      c.isDigit = true ∨ c ∈ ['-', '.', 'e'] :=
    (hs c hc).imp_right (by rintro rfl; decide)
  simp only [DecimalStyle.decimalText] at h
  split at h
  · exact hfixed (DecimalStyle.fixedPoint_positionalText style hdigits _) h
  · obtain ⟨s, htext, hs, -, -⟩ := DecimalStyle.exists_exponentText hdigits Nat.toDigits_ne_nil
      (d.exponent + (Nat.toDigits 10 d.digits).length)
    rw [htext] at h
    rcases List.mem_append.1 h with h | h
    · exact hfixed hs h
    · rcases List.mem_cons.1 h with rfl | h
      · exact Or.inr (by decide)
      · exact (DecimalStyle.mem_toString_int h).imp_right (by rintro rfl; decide)

theorem mem_exactText {x : Binary64} (hx : x.isFinite = true) {c : Char}
    (h : c ∈ x.exactText.toList) : c.isDigit = true ∨ c ∈ ['-', '.', 'e'] := by
  rw [toList_exactText hx] at h
  rcases List.mem_append.1 h with h | h
  · split at h
    · obtain rfl := List.mem_singleton.1 h
      exact Or.inr (by decide)
    · cases h
  · rcases hzero : x.isZero with _ | _
    · rw [DecimalStyle.magnitudeText_of_not_isZero _ hx hzero] at h
      exact mem_decimalText h
    · rw [DecimalStyle.magnitudeText_of_isZero _ hx hzero] at h
      have hfixed :=
        DecimalStyle.fixedPoint_positionalText _ (DecimalStyle.allDigits_zeros 1) 1 c h
      exact hfixed.imp_right (by rintro rfl; decide)

theorem mem_point_positionalText (digits : List Char) (point : ℤ) :
    '.' ∈ DecimalStyle.exact.positionalText digits point := by
  unfold DecimalStyle.positionalText
  split
  · simp
  · split <;> simp [DecimalStyle.exact]

theorem exists_mark_decimalText (d : Decimal) :
    '.' ∈ DecimalStyle.exact.decimalText d ∨ 'e' ∈ DecimalStyle.exact.decimalText d := by
  simp only [DecimalStyle.decimalText]
  split
  · exact Or.inl (mem_point_positionalText _ _)
  · refine Or.inr ?_
    simp [DecimalStyle.exponentText]

/-- A point or an exponent keeps a number apart from an integer. -/
theorem exists_mark_exactText {x : Binary64} (hx : x.isFinite = true) :
    '.' ∈ x.exactText.toList ∨ 'e' ∈ x.exactText.toList := by
  rw [toList_exactText hx]
  rcases hzero : x.isZero with _ | _
  · rw [DecimalStyle.magnitudeText_of_not_isZero _ hx hzero]
    exact (exists_mark_decimalText _).imp (List.mem_append_right _) (List.mem_append_right _)
  · rw [DecimalStyle.magnitudeText_of_isZero _ hx hzero]
    exact Or.inl (List.mem_append_right _ (mem_point_positionalText _ _))

end Binary64
end LangCore
