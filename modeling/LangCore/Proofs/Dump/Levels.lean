import Mathlib
import LangCore.Proofs.Dump.Text

/-!
# Documents that fit

A document fits where its deepest lines can be indented. How deep they stand
below its first line is the number of levels of the document, in which a node
counts for one even if it has no children.
-/

namespace LangCore.Sexpr

mutual

/-- How many levels the deepest lines of a document stand below its first line. -/
def levels : Sexpr → ℕ
  | atom _ => 0
  | form parts => levelsAll parts
  | node header children => max (levelsAll header) (levelsAll children + 1)

def levelsAll : List Sexpr → ℕ
  | [] => 0
  | s :: rest => max s.levels (levelsAll rest)

end

variable {width depth : ℕ}

theorem indentable_of_le {m n : ℕ} (h : m ≤ n) (hn : indentable width n = true) :
    indentable width m = true := by
  rw [indentable, decide_eq_true_eq] at hn ⊢
  exact (Nat.mul_le_mul_right width h).trans_lt hn

/-- Whether lines can be indented down to so many levels below a depth. -/
def Reaches (width depth levels : ℕ) : Prop :=
  levels = 0 ∨ indentable width (depth + levels) = true

instance (levels : ℕ) : Decidable (Reaches width depth levels) :=
  inferInstanceAs (Decidable (_ ∨ _))

theorem Reaches.of_le {m n : ℕ} (h : m ≤ n) (hn : Reaches width depth n) :
    Reaches width depth m := by
  rcases hn with rfl | hn
  · exact .inl (Nat.le_zero.1 h)
  · exact .inr (indentable_of_le (Nat.add_le_add_left h depth) hn)

theorem reaches_max_iff {m n : ℕ} :
    Reaches width depth (max m n) ↔ Reaches width depth m ∧ Reaches width depth n := by
  constructor
  · intro h
    exact ⟨h.of_le (le_max_left m n), h.of_le (le_max_right m n)⟩
  · rintro ⟨hm, hn⟩
    rcases max_choice m n with h | h <;> rwa [h]

theorem reaches_succ_iff {n : ℕ} :
    Reaches width depth (n + 1) ↔
      indentable width (depth + 1) = true ∧ Reaches width (depth + 1) n := by
  have hdepth : depth + (n + 1) = depth + 1 + n := by omega
  constructor
  · rintro (h | h)
    · cases h
    · refine ⟨indentable_of_le (by omega) h, .inr ?_⟩
      rwa [← hdepth]
  · rintro ⟨hfirst, rfl | h⟩
    · exact .inr hfirst
    · refine .inr ?_
      rwa [hdepth]

theorem reaches_levelsAll_iff {ss : List Sexpr} :
    Reaches width depth (levelsAll ss) ↔ ∀ s ∈ ss, Reaches width depth s.levels := by
  induction ss with
  | nil => exact iff_of_true (.inl rfl) fun s hs => absurd hs List.not_mem_nil
  | cons s ss ih => rw [levelsAll, reaches_max_iff, ih, List.forall_mem_cons]

theorem fits_iff_reaches {s : Sexpr} :
    s.fits width depth = true ↔ Reaches width depth s.levels := by
  induction s generalizing depth with
  | atom a => exact iff_of_true rfl (.inl rfl)
  | form parts ih =>
    rw [fits_form, List.all_eq_true, levels, reaches_levelsAll_iff]
    exact forall₂_congr fun s hs => ih s hs
  | node header children ihHeader ihChildren =>
    rw [fits_node, Bool.and_eq_true, Bool.and_eq_true, List.all_eq_true, List.all_eq_true,
      levels, reaches_max_iff, reaches_succ_iff, reaches_levelsAll_iff, reaches_levelsAll_iff,
      and_assoc]
    exact and_congr (forall₂_congr fun s hs => ihHeader s hs)
      (and_congr_right' (forall₂_congr fun s hs => ihChildren s hs))

end LangCore.Sexpr
