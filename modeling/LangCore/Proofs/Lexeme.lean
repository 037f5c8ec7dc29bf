import Mathlib
import LangCore.Source.Token

/-!
# Forms of lexemes

Names and qualifiers come from source as identifiers: letters, digits and
underscores of ASCII, with no digit in front. A region is an identifier behind
an apostrophe. What follows a lexeme in a longer text never continues it, so the
longest run of identifier characters is the lexeme itself.
-/

namespace LangCore

def isIdentifierStart (c : Char) : Bool :=
  c.isAlpha || c == '_'

def isIdentifierChar (c : Char) : Bool :=
  c.isAlphanum || c == '_'

/-- Letters, digits and underscores, not starting with a digit. -/
def isIdentifier (s : String) : Bool :=
  match s.toList with
  | [] => false
  | c :: rest => isIdentifierStart c && rest.all isIdentifierChar

/-- An apostrophe and an identifier. -/
def isRegion (s : String) : Bool :=
  match s.toList with
  | '\'' :: rest => isIdentifier (String.ofList rest)
  | _ => false

theorem isIdentifierChar_of_isIdentifierStart {c : Char} (h : isIdentifierStart c = true) :
    isIdentifierChar c = true := by
  simp only [isIdentifierStart, Bool.or_eq_true] at h
  simp only [isIdentifierChar, Char.isAlphanum, Bool.or_eq_true]
  tauto

theorem exists_cons_of_isIdentifier {s : String} (h : isIdentifier s = true) :
    ∃ c rest, s.toList = c :: rest ∧ isIdentifierStart c = true ∧
      ∀ d ∈ s.toList, isIdentifierChar d = true := by
  cases hs : s.toList with
  | nil => simp [isIdentifier, hs] at h
  | cons c rest =>
    simp only [isIdentifier, hs, Bool.and_eq_true, List.all_eq_true] at h
    refine ⟨c, rest, rfl, h.1, ?_⟩
    intro d hd
    rcases List.mem_cons.1 hd with rfl | hd
    · exact isIdentifierChar_of_isIdentifierStart h.1
    · exact h.2 d hd

theorem exists_of_isRegion {s : String} (h : isRegion s = true) :
    ∃ name, isIdentifier name = true ∧ s.toList = '\'' :: name.toList := by
  unfold isRegion at h
  split at h
  · rename_i rest hs
    exact ⟨String.ofList rest, h, by simp [hs]⟩
  · exact absurd h Bool.false_ne_true

theorem ne_of_accepted {α : Type} {p : α → Bool} {a b : α} (ha : p a = true) (hb : p b = false) :
    a ≠ b := by
  rintro rfl
  rw [ha] at hb
  cases hb

/-- Characters that a predicate accepts, followed by one that it does not, are its longest run. -/
theorem takeWhile_append_of_stop {p : Char → Bool} {word rest : List Char}
    (hword : ∀ c ∈ word, p c = true) (hrest : ∀ c ∈ rest.head?, p c = false) :
    (word ++ rest).takeWhile p = word := by
  rw [List.takeWhile_append_of_pos hword]
  cases rest with
  | nil => simp
  | cons c rest => simp [hrest c rfl]

theorem dropWhile_append_of_stop {p : Char → Bool} {word rest : List Char}
    (hword : ∀ c ∈ word, p c = true) (hrest : ∀ c ∈ rest.head?, p c = false) :
    (word ++ rest).dropWhile p = rest := by
  rw [List.dropWhile_append_of_pos hword]
  cases rest with
  | nil => rfl
  | cons c rest => simp [hrest c rfl]

end LangCore
