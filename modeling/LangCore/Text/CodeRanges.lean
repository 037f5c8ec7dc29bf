/-!
# Code point ranges

A set of code points is a list of inclusive ranges in ascending order. Searching
stops at the first range above the code point, so low code points are found
without reading the whole list.
-/

namespace LangCore.Text

/-- Inclusive ranges in ascending order. -/
abbrev CodeRanges := List (Nat × Nat)

namespace CodeRanges

def covers : CodeRanges → Nat → Bool
  | [], _ => false
  | (low, high) :: rest, c => if c < low then false else decide (c ≤ high) || covers rest c

@[simp] theorem covers_nil (c : Nat) : covers [] c = false := rfl

theorem covers_cons (low high : Nat) (rest : CodeRanges) (c : Nat) :
    covers ((low, high) :: rest) c =
      (if c < low then false else decide (c ≤ high) || covers rest c) := rfl

theorem exists_range_of_covers {ranges : CodeRanges} {c : Nat} (h : covers ranges c = true) :
    ∃ r ∈ ranges, r.1 ≤ c ∧ c ≤ r.2 := by
  induction ranges with
  | nil => simp at h
  | cons r rest ih =>
    obtain ⟨low, high⟩ := r
    rw [covers_cons] at h
    split at h
    · simp at h
    · rename_i hlow
      rcases Bool.or_eq_true_iff.1 h with hhigh | hrest
      · exact ⟨(low, high), by simp, by omega, of_decide_eq_true hhigh⟩
      · obtain ⟨r, hr, hc⟩ := ih hrest
        exact ⟨r, by simp [hr], hc⟩

/-- Whether the ranges are in order, none begins below `start`, and a gap parts each from the
next. A set of code points has one such list. -/
def ascendingFrom : Nat → CodeRanges → Bool
  | _, [] => true
  | start, (low, high) :: rest =>
    decide (start ≤ low) && decide (low ≤ high) && ascendingFrom (high + 2) rest

theorem le_of_mem_of_ascendingFrom {start : Nat} {ranges : CodeRanges}
    (h : ascendingFrom start ranges = true) : ∀ r ∈ ranges, start ≤ r.1 := by
  induction ranges generalizing start with
  | nil => simp
  | cons r rest ih =>
    obtain ⟨low, high⟩ := r
    simp only [ascendingFrom, Bool.and_eq_true, decide_eq_true_eq] at h
    intro r hr
    rcases List.mem_cons.1 hr with rfl | hrest
    · exact h.1.1
    · have := ih h.2 r hrest
      omega

/-- In an ascending list nothing is missed by stopping early. -/
theorem covers_iff_exists_range {start : Nat} {ranges : CodeRanges} {c : Nat}
    (h : ascendingFrom start ranges = true) :
    covers ranges c = true ↔ ∃ r ∈ ranges, r.1 ≤ c ∧ c ≤ r.2 := by
  refine ⟨exists_range_of_covers, ?_⟩
  induction ranges generalizing start with
  | nil => simp
  | cons r rest ih =>
    obtain ⟨low, high⟩ := r
    simp only [ascendingFrom, Bool.and_eq_true, decide_eq_true_eq] at h
    rintro ⟨r, hr, hlow, hhigh⟩
    rcases List.mem_cons.1 hr with rfl | hrest
    · simp [covers_cons, Nat.not_lt.2 hlow, hhigh]
    · have hstart := le_of_mem_of_ascendingFrom h.2 r hrest
      have hc : ¬ c < low := by omega
      simp [covers_cons, hc, ih h.2 ⟨r, hrest, hlow, hhigh⟩]

end CodeRanges
end LangCore.Text
