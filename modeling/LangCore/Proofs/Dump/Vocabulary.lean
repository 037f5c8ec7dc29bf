import Mathlib
import LangCore.Proofs.Typename.Reading
import LangCore.Proofs.Walk.Every

/-!
# Lexemes of printed trees

A vocabulary says which operators belong to which kind of binary form and which
words are permissions. A tree keeps to a vocabulary when all its names are
identifiers, its operators cannot be mistaken for anything else that a form
starts with, its strings end at their quote, its numbers are finite and its
typenames have no name that is a permission.
-/

namespace LangCore

/-- Operators of assignments, arithmetic and logic, and words for permissions. -/
structure Vocabulary where
  isAssignment : String → Bool
  isBinary : String → Bool
  isLogical : String → Bool
  isPermission : String → Bool
  assignment_ne_binary : ∀ s, isAssignment s = true → isBinary s = false
  assignment_ne_logical : ∀ s, isAssignment s = true → isLogical s = false
  binary_ne_logical : ∀ s, isBinary s = true → isLogical s = false

def isOperatorChar (c : Char) : Bool :=
  !c.isWhitespace && c != '(' && c != ')' && c != '"' && c != ':'

/-- Neither empty nor the dot of a field, without whitespace, parentheses, quotes and colons. -/
def isOperator (s : String) : Bool :=
  s != "" && s != "." && s.toList.all isOperatorChar

/-- An identifier that is no literal and no wildcard. -/
def isSymbolName (s : String) : Bool :=
  isIdentifier s && s != "true" && s != "false" && s != "_"

namespace Vocabulary

/-- The typename carries the name of its structure, and permissions and names are told apart. -/
def allowsTypename (v : Vocabulary) (t : Typename) : Prop :=
  t.Built ∧ t.shape.Lexical ∧ (t.shape.Every fun u => u.permissionIn v.isPermission = true) ∧
    t.shape.Every fun u => u.nameOutside v.isPermission = true

def allowsNames (entries : List TypedName) : Bool :=
  entries.all fun entry => isIdentifier entry.name.lexeme

def allowsExpr (v : Vocabulary) : Expr → Bool
  | .assign _ oper _ => isOperator oper.lexeme && v.isAssignment oper.lexeme
  | .binary _ oper _ => isOperator oper.lexeme && v.isBinary oper.lexeme
  | .logical _ oper _ => isOperator oper.lexeme && v.isLogical oper.lexeme
  | .unary oper _ => isOperator oper.lexeme
  | .field _ name | .forIn _ name _ _ => isIdentifier name.lexeme
  | .symbol name => isSymbolName name.lexeme
  | .string _ value => !value.toList.contains '"'
  | .float _ value => value.isFinite
  | _ => true

def allowsStmt : Stmt → Bool
  | .enumDecl name entries | .structDecl name entries =>
    isIdentifier name.lexeme && allowsNames entries
  | .traitDecl name _ => isIdentifier name.lexeme
  | .binding keyword name _ _ => isIdentifier keyword.lexeme && isIdentifier name.lexeme
  | _ => true

def allowsFunction (f : FunctionDecl) : Bool :=
  isIdentifier f.name.lexeme && allowsNames f.params

/-- Whether an item keeps to the vocabulary, apart from the items below it. -/
def allows (v : Vocabulary) : Item → Prop
  | .stmt s => allowsStmt s = true
  | .expr e => v.allowsExpr e = true
  | .function f => allowsFunction f = true
  | .typename t => v.allowsTypename t
  | .pattern _ | .block _ => True

/-- Everything from an item down keeps to the vocabulary. -/
def Allows (v : Vocabulary) (item : Item) : Prop :=
  item.Every v.allows

theorem allows_iff {v : Vocabulary} {item : Item} :
    v.Allows item ↔ v.allows item ∧ ∀ c ∈ item.children, v.Allows c :=
  Item.every_iff

theorem Allows.self {v : Vocabulary} {item : Item} (h : v.Allows item) : v.allows item :=
  (allows_iff.1 h).1

theorem Allows.of_mem_children {v : Vocabulary} {item c : Item} (h : v.Allows item)
    (hc : c ∈ item.children) : v.Allows c :=
  (allows_iff.1 h).2 c hc

end Vocabulary
end LangCore
