import LangCore.Decimal.Binary64
import LangCore.Typename.Basic

/-!
# Trees

Expressions, statements and patterns of a small language. Control flow is made
of expressions: blocks, conditionals, switches and loops all yield one value. A
block yields its trailing expression, and a missing part of the source is filled
in by the reader of the source, a unit for the trailing expression of a block
and a `true` predicate for a case without a guard.

Parents own their children, so a tree has neither sharing nor cycles.
-/

namespace LangCore

/-- A name with its type: a parameter, a field of a struct or a variant of an enum. -/
structure TypedName where
  name : Token
  typename : Typename

mutual

/-- Whatever yields a value. -/
inductive Expr
  | assign (target : Expr) (oper : Token) (value : Expr)
  | binary (left : Expr) (oper : Token) (right : Expr)
  | block (body : Block)
  | boolean (token : Token) (value : Bool)
  | call (callee : Expr) (paren : Token) (arguments : List Expr)
  | field (object : Expr) (name : Token)
  | float (token : Token) (value : Binary64)
  | forIn (keyword name : Token) (object : Expr) (body : Block)
  | ifElse (keyword : Token) (condition thenBody elseBody : Expr)
  | integer (token : Token) (value : Int64)
  | logical (left : Expr) (oper : Token) (right : Expr)
  | string (token : Token) (value : String)
  | switch (keyword : Token) (value : Expr) (cases : List SwitchCase)
  | symbol (name : Token)
  | unary (oper : Token) (operand : Expr)
  | unit (token : Token)
  | whileDo (keyword : Token) (condition : Expr) (body : Block)

/-- Statements in order and the expression that gives the block its value. -/
structure Block where
  brace : Token
  stmts : List Stmt
  result : Expr

/-- One alternative of a switch: taken when the pattern matches and the predicate holds. -/
structure SwitchCase where
  pattern : Pattern
  predicate : Expr
  body : Expr

inductive Pattern
  | value (value : Expr)
  | wildcard (token : Token)

/-- A function, standing free or as a method. -/
structure FunctionDecl where
  name : Token
  params : List TypedName
  result : Typename
  body : Block

/-- Declarations, bindings and jumps. -/
inductive Stmt
  | breakLoop (keyword : Token)
  | continueLoop (keyword : Token)
  | enumDecl (name : Token) (variants : List TypedName)
  | expression (expr : Expr)
  | functionDecl (decl : FunctionDecl)
  | implDecl (typename : Typename) (trait? : Option Typename) (methods : List FunctionDecl)
  | returnValue (keyword : Token) (value : Expr)
  | structDecl (name : Token) (fields : List TypedName)
  | traitDecl (name : Token) (methods : List FunctionDecl)
  | binding (keyword name : Token) (typename? : Option Typename) (initializer : Expr)

end

/-- A tree of any of the three families. -/
inductive Tree
  | stmt (stmt : Stmt)
  | expr (expr : Expr)
  | pattern (pattern : Pattern)

instance : Inhabited Expr := ⟨.unit .absent⟩

/-- Whether a statement binds a name that cannot be assigned again. -/
def Stmt.isConst : Stmt → Bool
  | .binding keyword _ _ _ => keyword.lexeme == "const"
  | _ => false

def Expr.kindName : Expr → String
  | .assign _ _ _ => "Assign"
  | .binary _ _ _ => "Binary"
  | .block _ => "Block"
  | .boolean _ _ => "Boolean"
  | .call _ _ _ => "Call"
  | .field _ _ => "Field"
  | .float _ _ => "Float"
  | .forIn _ _ _ _ => "For"
  | .ifElse _ _ _ _ => "If"
  | .integer _ _ => "Integer"
  | .logical _ _ _ => "Logical"
  | .string _ _ => "String"
  | .switch _ _ _ => "Switch"
  | .symbol _ => "Symbol"
  | .unary _ _ => "Unary"
  | .unit _ => "Unit"
  | .whileDo _ _ _ => "While"

def Stmt.kindName : Stmt → String
  | .breakLoop _ => "Break"
  | .continueLoop _ => "Continue"
  | .enumDecl _ _ => "Enum"
  | .expression _ => "Expression"
  | .functionDecl _ => "Function"
  | .implDecl _ _ _ => "Impl"
  | .returnValue _ _ => "Return"
  | .structDecl _ _ => "Struct"
  | .traitDecl _ _ => "Trait"
  | .binding _ _ _ _ => "Variable"

def Pattern.kindName : Pattern → String
  | .value _ => "Value"
  | .wildcard _ => "Wildcard"

namespace Tree

def kindName : Tree → String
  | stmt s => s.kindName
  | expr e => e.kindName
  | pattern p => p.kindName

def kindLabel (t : Tree) : String :=
  t.kindName.toLower

end Tree
end LangCore
