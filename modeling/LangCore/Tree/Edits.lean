import LangCore.Typename.Substitute
import LangCore.Walk.Basic

/-!
# Editing the leaves of trees

An edit keeps the shape of a tree and changes what its leaves hold: literals,
the lexemes of symbols, and every typename attached to a declaration. Operators
and the names of fields, loop variables and declarations stay as they are.
-/

namespace LangCore

/-- What becomes of the leaves of each kind. -/
structure Edits where
  boolean : Bool → Bool
  integer : Int64 → Int64
  float : Binary64 → Binary64
  string : String → String
  symbol : String → String
  typename : Typename → Typename

namespace Edits

/-- Edits that change every literal and symbol visibly and instantiate one parameter: booleans
and signs flip, integers grow by one and wrap, strings end in `!` and symbols start with `$`. -/
def marking (param : String) (replacement : Typename) : Edits where
  boolean b := !b
  integer n := n + 1
  float x := x.neg
  string s := s ++ "!"
  symbol s := "$" ++ s
  typename t := t.substitute param replacement

end Edits

def Token.mapLexeme (f : String → String) (t : Token) : Token :=
  { t with lexeme := f t.lexeme }

def TypedName.edit (edits : Edits) (entry : TypedName) : TypedName :=
  { entry with typename := edits.typename entry.typename }

mutual

def Expr.edit (edits : Edits) : Expr → Expr
  | .assign target oper value => .assign (target.edit edits) oper (value.edit edits)
  | .binary left oper right => .binary (left.edit edits) oper (right.edit edits)
  | .block body => .block (body.edit edits)
  | .boolean token value => .boolean token (edits.boolean value)
  | .call callee paren arguments =>
    .call (callee.edit edits) paren (Expr.editAll edits arguments)
  | .field object name => .field (object.edit edits) name
  | .float token value => .float token (edits.float value)
  | .forIn keyword name object body =>
    .forIn keyword name (object.edit edits) (body.edit edits)
  | .ifElse keyword condition thenBody elseBody =>
    .ifElse keyword (condition.edit edits) (thenBody.edit edits) (elseBody.edit edits)
  | .integer token value => .integer token (edits.integer value)
  | .logical left oper right => .logical (left.edit edits) oper (right.edit edits)
  | .string token value => .string token (edits.string value)
  | .switch keyword value cases =>
    .switch keyword (value.edit edits) (SwitchCase.editAll edits cases)
  | .symbol name => .symbol (name.mapLexeme edits.symbol)
  | .unary oper operand => .unary oper (operand.edit edits)
  | .unit token => .unit token
  | .whileDo keyword condition body =>
    .whileDo keyword (condition.edit edits) (body.edit edits)

def Expr.editAll (edits : Edits) : List Expr → List Expr
  | [] => []
  | e :: rest => e.edit edits :: Expr.editAll edits rest

def Block.edit (edits : Edits) : Block → Block
  | ⟨brace, stmts, result⟩ => ⟨brace, Stmt.editAll edits stmts, result.edit edits⟩

def SwitchCase.edit (edits : Edits) : SwitchCase → SwitchCase
  | ⟨pattern, predicate, body⟩ =>
    ⟨pattern.edit edits, predicate.edit edits, body.edit edits⟩

def SwitchCase.editAll (edits : Edits) : List SwitchCase → List SwitchCase
  | [] => []
  | c :: rest => c.edit edits :: SwitchCase.editAll edits rest

def Pattern.edit (edits : Edits) : Pattern → Pattern
  | .value e => .value (e.edit edits)
  | .wildcard token => .wildcard token

def FunctionDecl.edit (edits : Edits) : FunctionDecl → FunctionDecl
  | ⟨name, params, result, body⟩ =>
    ⟨name, params.map (TypedName.edit edits), edits.typename result, body.edit edits⟩

def FunctionDecl.editAll (edits : Edits) : List FunctionDecl → List FunctionDecl
  | [] => []
  | f :: rest => f.edit edits :: FunctionDecl.editAll edits rest

def Stmt.edit (edits : Edits) : Stmt → Stmt
  | .breakLoop keyword => .breakLoop keyword
  | .continueLoop keyword => .continueLoop keyword
  | .enumDecl name variants => .enumDecl name (variants.map (TypedName.edit edits))
  | .expression expr => .expression (expr.edit edits)
  | .functionDecl decl => .functionDecl (decl.edit edits)
  | .implDecl typename trait? methods =>
    .implDecl (edits.typename typename) (trait?.map edits.typename)
      (FunctionDecl.editAll edits methods)
  | .returnValue keyword value => .returnValue keyword (value.edit edits)
  | .structDecl name fields => .structDecl name (fields.map (TypedName.edit edits))
  | .traitDecl name methods => .traitDecl name (FunctionDecl.editAll edits methods)
  | .binding keyword name typename? initializer =>
    .binding keyword name (typename?.map edits.typename) (initializer.edit edits)

def Stmt.editAll (edits : Edits) : List Stmt → List Stmt
  | [] => []
  | s :: rest => s.edit edits :: Stmt.editAll edits rest

end

def Tree.edit (edits : Edits) : Tree → Tree
  | .stmt s => .stmt (s.edit edits)
  | .expr e => .expr (e.edit edits)
  | .pattern p => .pattern (p.edit edits)

@[simp] theorem Expr.editAll_eq_map (edits : Edits) (es : List Expr) :
    Expr.editAll edits es = es.map (Expr.edit edits) := by
  induction es with
  | nil => rfl
  | cons e es ih => simp [Expr.editAll, ih]

@[simp] theorem SwitchCase.editAll_eq_map (edits : Edits) (cs : List SwitchCase) :
    SwitchCase.editAll edits cs = cs.map (SwitchCase.edit edits) := by
  induction cs with
  | nil => rfl
  | cons c cs ih => simp [SwitchCase.editAll, ih]

@[simp] theorem FunctionDecl.editAll_eq_map (edits : Edits) (fs : List FunctionDecl) :
    FunctionDecl.editAll edits fs = fs.map (FunctionDecl.edit edits) := by
  induction fs with
  | nil => rfl
  | cons f fs ih => simp [FunctionDecl.editAll, ih]

@[simp] theorem Stmt.editAll_eq_map (edits : Edits) (ss : List Stmt) :
    Stmt.editAll edits ss = ss.map (Stmt.edit edits) := by
  induction ss with
  | nil => rfl
  | cons s ss ih => simp [Stmt.editAll, ih]

/-- Whether an expression is a leaf whose content an edit changes. -/
def Expr.isEditable : Expr → Bool
  | .boolean _ _ | .float _ _ | .integer _ _ | .string _ _ | .symbol _ => true
  | _ => false

def Item.isEditable : Item → Bool
  | .expr e => e.isEditable
  | _ => false

/-- The number of literals and symbols from some items down. -/
def editCount (items : List Item) : Nat :=
  (Item.walkAll (fun _ => true) items).countP Item.isEditable

end LangCore
