import Mathlib
import LangCore.Proofs.Dump.Words

/-!
# Lexemes of printed trees

What a tree is written with comes from its source, apart from the names of forms
and the texts of numbers and truth values, which are words. A character that no
word has, and that is no quote, is therefore written only if it stands in a
lexeme, in the value of a string or in the name of a typename.
-/

namespace LangCore

/-- The name or operator of an expression, or the value of a string. -/
def Expr.lexemes : Expr → List String
  | .assign _ oper _ | .binary _ oper _ | .logical _ oper _ | .unary oper _ => [oper.lexeme]
  | .field _ name | .forIn _ name _ _ | .symbol name => [name.lexeme]
  | .string _ value => [value]
  | .block _ | .boolean _ _ | .call _ _ _ | .float _ _ | .ifElse _ _ _ _ | .integer _ _
  | .switch _ _ _ | .unit _ | .whileDo _ _ _ => []

def FunctionDecl.lexemes (f : FunctionDecl) : List String :=
  f.name.lexeme :: TypedName.names f.params

def Stmt.lexemes : Stmt → List String
  | .enumDecl name entries | .structDecl name entries => name.lexeme :: TypedName.names entries
  | .traitDecl name _ => [name.lexeme]
  | .binding keyword name _ _ => [keyword.lexeme, name.lexeme]
  | .breakLoop _ | .continueLoop _ | .expression _ | .functionDecl _ | .implDecl _ _ _
  | .returnValue _ _ => []

theorem Stmt.lexeme_or_isWord {s : Stmt} {a : String} (h : a ∈ s.words) :
    a ∈ s.lexemes ∨ IsWord a := by
  cases s with
  | breakLoop | continueLoop | expression | implDecl | returnValue =>
    obtain rfl := List.mem_singleton.1 h
    exact .inr rfl
  | functionDecl => cases h
  | enumDecl | structDecl | traitDecl | binding =>
    rcases List.mem_cons.1 h with rfl | h
    · exact .inr rfl
    · exact .inl h

theorem Expr.lexeme_or_quoted_or_isWord {e : Expr} {a : String} (h : a ∈ e.words) :
    a ∈ e.lexemes ∨ (∃ value ∈ e.lexemes, a = "\"" ++ value ++ "\"") ∨ IsWord a := by
  cases e with
  | assign | binary | logical | unary | symbol => exact .inl h
  | string token value =>
    exact .inr (.inl ⟨value, List.mem_cons_self, List.mem_singleton.1 h⟩)
  | boolean token value =>
    obtain rfl := List.mem_singleton.1 h
    cases value <;> exact .inr (.inr rfl)
  | float token value =>
    obtain rfl := List.mem_singleton.1 h
    exact .inr (.inr (isWord_exactText value))
  | integer token value =>
    obtain rfl := List.mem_singleton.1 h
    exact .inr (.inr (isWord_toString_int _))
  | block | ifElse | switch | whileDo =>
    obtain rfl := List.mem_singleton.1 h
    exact .inr (.inr rfl)
  | field | forIn =>
    rcases List.mem_cons.1 h with rfl | h
    · exact .inr (.inr rfl)
    · exact .inl h
  | call | unit => cases h

namespace Item

/-- The lexemes and values that an item is written with, apart from those of the items below it.
A typename is written with its name. -/
def lexemes : Item → List String
  | stmt s => s.lexemes
  | expr e => e.lexemes
  | function f => f.lexemes
  | typename t => [t.name]
  | pattern _ | block _ => []

theorem lexeme_or_quoted_or_isWord {item : Item} {a : String} (h : a ∈ item.words) :
    a ∈ item.lexemes ∨ (∃ value ∈ item.lexemes, a = "\"" ++ value ++ "\"") ∨ IsWord a := by
  cases item with
  | stmt s => exact (Stmt.lexeme_or_isWord h).imp_right .inr
  | expr e => exact Expr.lexeme_or_quoted_or_isWord h
  | pattern p =>
    cases p with
    | value => cases h
    | wildcard =>
      obtain rfl := List.mem_singleton.1 h
      exact .inr (.inr rfl)
  | block => cases h
  | function f =>
    rcases List.mem_cons.1 h with rfl | h
    · exact .inr (.inr rfl)
    · exact .inl h
  | typename t => exact .inl h

/-- A separator other than a quote is no part of a word if it is no part of a lexeme. -/
theorem not_mem_of_mem_words {item : Item} {c : Char} (hword : isWordChar c = false)
    (hquote : c ≠ '"') (h : ∀ s ∈ item.lexemes, c ∉ s.toList) : ∀ a ∈ item.words, c ∉ a.toList := by
  intro a ha
  rcases lexeme_or_quoted_or_isWord ha with hlexeme | ⟨value, hvalue, rfl⟩ | hown
  · exact h a hlexeme
  · simpa [hquote] using h value hvalue
  · intro hc
    exact ne_of_accepted (List.all_eq_true.1 hown c hc) hword rfl

theorem not_mem_of_mem_atoms {item : Item} {c : Char} (hword : isWordChar c = false)
    (hquote : c ≠ '"') (h : ∀ i ∈ item.printed, ∀ s ∈ i.lexemes, c ∉ s.toList) :
    ∀ a ∈ item.atoms, c ∉ a.toList := by
  intro a ha
  obtain ⟨i, hi, hmem⟩ := exists_mem_words ha
  exact not_mem_of_mem_words hword hquote (h i hi) a hmem

end Item
end LangCore
