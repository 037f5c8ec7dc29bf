import Mathlib
import LangCore.Proofs.Dump.Words

/-!
# Trees and the scan for a blank

Every word of a tree that keeps to a vocabulary is paired, so every text of the
tree is. An expression is one word, one string or one form, and a scan finds no
blank in it.
-/

namespace LangCore

namespace Sexpr

theorem compact_form {width depth : ℕ} {parts : List Sexpr}
    (h : ∀ s ∈ parts, Paired (s.chars width depth)) : Compact ((form parts).chars width depth) := by
  rw [chars_form]
  exact (paired_spaced h).compact_enclosed

theorem compact_node {width depth : ℕ} {header children : List Sexpr}
    (hheader : ∀ s ∈ header, Paired (s.chars width depth))
    (hchildren : ∀ s ∈ children, Paired (s.chars width (depth + 1))) :
    Compact ((node header children).chars width depth) := by
  have hlines := (paired_lines hchildren).compact_enclosed.paired
  have hinner := (paired_spaced hheader).append ((paired_blanks 1).append hlines)
  rw [chars_node]
  simpa using hinner.compact_enclosed

mutual

theorem paired_chars (width depth : ℕ) :
    ∀ s : Sexpr, (∀ a ∈ s.atoms, Paired a.toList) → Paired (s.chars width depth)
  | atom s, h => h s (List.mem_singleton_self s)
  | form parts, h => (compact_form (paired_chars_all width depth parts h)).paired
  | node header children, h =>
    have hatoms := List.forall_mem_append.1 h
    (compact_node (paired_chars_all width depth header hatoms.1)
      (paired_chars_all width (depth + 1) children hatoms.2)).paired

theorem paired_chars_all (width depth : ℕ) :
    ∀ ss : List Sexpr, (∀ a ∈ atomsAll ss, Paired a.toList) →
      ∀ s ∈ ss, Paired (s.chars width depth)
  | [], _ => by
    intro s hs
    cases hs
  | s :: rest, h => by
    have hatoms := List.forall_mem_append.1 h
    exact List.forall_mem_cons.2
      ⟨paired_chars width depth s hatoms.1, paired_chars_all width depth rest hatoms.2⟩

end

end Sexpr

variable {v : Vocabulary}

theorem isWord_of_mem_names {entries : List TypedName} (h : Vocabulary.allowsNames entries = true)
    {a : String} (ha : a ∈ TypedName.names entries) : IsWord a := by
  obtain ⟨entry, hentry, rfl⟩ := List.mem_map.1 ha
  exact isWord_of_isIdentifier (List.all_eq_true.1 h entry hentry)

theorem isIdentifier_of_isSymbolName {s : String} (h : isSymbolName s = true) :
    isIdentifier s = true := by
  simp only [isSymbolName, Bool.and_eq_true] at h
  exact h.1.1.1

theorem isWord_of_mem_words_expr {e : Expr} (h : v.allowsExpr e = true) {a : String}
    (ha : a ∈ e.words) (hstring : ∀ token value, e ≠ .string token value) : IsWord a := by
  cases e with
  | string token value => exact absurd rfl (hstring token value)
  | assign | binary | logical =>
    obtain rfl := List.mem_singleton.1 ha
    exact isWord_of_isOperator (Bool.and_eq_true_iff.1 h).1
  | unary =>
    obtain rfl := List.mem_singleton.1 ha
    exact isWord_of_isOperator h
  | boolean token value =>
    obtain rfl := List.mem_singleton.1 ha
    cases value <;> rfl
  | float =>
    obtain rfl := List.mem_singleton.1 ha
    exact isWord_exactText _
  | integer =>
    obtain rfl := List.mem_singleton.1 ha
    exact isWord_toString_int _
  | symbol =>
    obtain rfl := List.mem_singleton.1 ha
    exact isWord_of_isIdentifier (isIdentifier_of_isSymbolName h)
  | field | forIn =>
    simp only [Expr.words, List.mem_cons, List.not_mem_nil, or_false] at ha
    rcases ha with rfl | rfl
    · rfl
    · exact isWord_of_isIdentifier h
  | block | ifElse | switch | whileDo =>
    obtain rfl := List.mem_singleton.1 ha
    rfl
  | call | unit => cases ha

theorem isWord_of_mem_words_stmt {s : Stmt} (h : Vocabulary.allowsStmt s = true) {a : String}
    (ha : a ∈ s.words) : IsWord a := by
  cases s with
  | breakLoop | continueLoop | expression | implDecl | returnValue =>
    obtain rfl := List.mem_singleton.1 ha
    rfl
  | functionDecl => cases ha
  | enumDecl name entries | structDecl name entries =>
    have hnames := Bool.and_eq_true_iff.1 h
    simp only [Stmt.words, List.mem_cons] at ha
    rcases ha with rfl | rfl | ha
    · rfl
    · exact isWord_of_isIdentifier hnames.1
    · exact isWord_of_mem_names hnames.2 ha
  | traitDecl =>
    simp only [Stmt.words, List.mem_cons, List.not_mem_nil, or_false] at ha
    rcases ha with rfl | rfl
    · rfl
    · exact isWord_of_isIdentifier h
  | binding =>
    have hnames := Bool.and_eq_true_iff.1 h
    simp only [Stmt.words, List.mem_cons, List.not_mem_nil, or_false] at ha
    rcases ha with rfl | rfl | rfl
    · rfl
    · exact isWord_of_isIdentifier hnames.1
    · exact isWord_of_isIdentifier hnames.2

theorem isWord_of_mem_words_function {f : FunctionDecl} (h : Vocabulary.allowsFunction f = true)
    {a : String} (ha : a ∈ f.words) : IsWord a := by
  have hnames := Bool.and_eq_true_iff.1 h
  simp only [FunctionDecl.words, List.mem_cons] at ha
  rcases ha with rfl | rfl | ha
  · rfl
  · exact isWord_of_isIdentifier hnames.1
  · exact isWord_of_mem_names hnames.2 ha

theorem compact_string {value : String} (h : (!value.toList.contains '"') = true) :
    Compact ("\"" ++ value ++ "\"").toList := by
  rw [Bool.not_eq_true', List.contains_eq_mem, decide_eq_false_iff_not] at h
  simpa using compact_quoted h

theorem compact_of_mem_words_expr {e : Expr} (h : v.allowsExpr e = true) {a : String}
    (ha : a ∈ e.words) : Compact a.toList := by
  by_cases hstring : ∃ token value, e = .string token value
  · obtain ⟨token, value, rfl⟩ := hstring
    obtain rfl := List.mem_singleton.1 ha
    exact compact_string h
  · refine (isWord_of_mem_words_expr h ha fun token value heq => ?_).compact
    exact hstring ⟨token, value, heq⟩

theorem paired_of_mem_words {item : Item} (h : v.allows item) {a : String}
    (ha : a ∈ item.words) : Paired a.toList := by
  cases item with
  | stmt s => exact (isWord_of_mem_words_stmt h ha).compact.paired
  | expr e => exact (compact_of_mem_words_expr h ha).paired
  | pattern p =>
    cases p with
    | value => cases ha
    | wildcard =>
      obtain rfl := List.mem_singleton.1 ha
      exact (compact_of_isPlain rfl).paired
  | block => cases ha
  | function f => exact (isWord_of_mem_words_function h ha).compact.paired
  | typename t =>
    obtain rfl := List.mem_singleton.1 ha
    exact Typename.paired_name h.1 h.2.1

theorem Vocabulary.Allows.paired_atoms {item : Item} (h : v.Allows item) :
    ∀ a ∈ item.atoms, Paired a.toList := by
  intro a ha
  obtain ⟨i, hi, hword⟩ := Item.exists_mem_words ha
  exact paired_of_mem_words (h i (Item.walk_subset_all _ _ hi)) hword

theorem Vocabulary.Allows.paired {item : Item} (h : v.Allows item) {s : Sexpr}
    (hs : s ∈ item.sexprs) (width depth : ℕ) : Paired (s.chars width depth) := by
  refine s.paired_chars width depth fun a ha => ?_
  exact h.paired_atoms a (List.mem_flatMap.2 ⟨s, hs, ha⟩)

/-- A scan finds no blank in an expression. -/
theorem Vocabulary.Allows.compact {e : Expr} (h : v.Allows (.expr e)) (width depth : ℕ) :
    Compact (e.sexpr.chars width depth) := by
  have hatoms : ∀ a ∈ e.sexpr.atoms, Paired a.toList := by
    intro a ha
    exact h.paired_atoms a (by simpa using ha)
  cases hsexpr : e.sexpr with
  | atom a =>
    have hword : a ∈ e.words := by
      cases e <;> simp_all [Expr.sexpr, Expr.words]
    exact compact_of_mem_words_expr h.self hword
  | form parts =>
    rw [hsexpr] at hatoms
    exact Sexpr.compact_form (Sexpr.paired_chars_all width depth parts hatoms)
  | node header children =>
    rw [hsexpr] at hatoms
    have hparts := List.forall_mem_append.1 hatoms
    exact Sexpr.compact_node (Sexpr.paired_chars_all width depth header hparts.1)
      (Sexpr.paired_chars_all width (depth + 1) children hparts.2)

end LangCore
