import LangCore.Decimal.Style
import LangCore.Dump.Printer
import LangCore.Tree.Basic

/-!
# Trees as s-expressions

Operators stand first in their form, a call starts with the empty form and a
field access with a dot. The bodies of blocks, functions and loops are written
directly under the node that owns them, the trailing expression last. Tokens
that only mark a place are not written.
-/

namespace LangCore

def TypedName.sexpr (entry : TypedName) : Sexpr :=
  .form [.atom entry.name.lexeme, .atom entry.typename.name]

mutual

def Expr.sexpr : Expr → Sexpr
  | .assign target oper value => .form [.atom oper.lexeme, target.sexpr, value.sexpr]
  | .binary left oper right => .form [.atom oper.lexeme, left.sexpr, right.sexpr]
  | .block body => .node [.atom "Expr::Block"] body.sexprs
  | .boolean _ value => .atom (if value then "true" else "false")
  | .call callee _ arguments => .form (.form [] :: callee.sexpr :: Expr.sexprs arguments)
  | .field object name => .form [.atom ".", object.sexpr, .atom name.lexeme]
  | .float _ value => .atom value.exactText
  | .forIn _ name object body =>
    .node [.atom "Expr::For", .form [.atom name.lexeme, object.sexpr]] body.sexprs
  | .ifElse _ condition thenBody elseBody =>
    .node [.atom "Expr::If", condition.sexpr] [thenBody.sexpr, elseBody.sexpr]
  | .integer _ value => .atom (toString value.toInt)
  | .logical left oper right => .form [.atom oper.lexeme, left.sexpr, right.sexpr]
  | .string _ value => .atom ("\"" ++ value ++ "\"")
  | .switch _ value cases => .node [.atom "Expr::Switch", value.sexpr] (SwitchCase.sexprs cases)
  | .symbol name => .atom name.lexeme
  | .unary oper operand => .form [.atom oper.lexeme, operand.sexpr]
  | .unit _ => .form []
  | .whileDo _ condition body => .node [.atom "Expr::While", condition.sexpr] body.sexprs

def Expr.sexprs : List Expr → List Sexpr
  | [] => []
  | e :: rest => e.sexpr :: Expr.sexprs rest

/-- The statements of a block and its trailing expression. -/
def Block.sexprs : Block → List Sexpr
  | ⟨_, stmts, result⟩ => Stmt.sexprs stmts ++ [result.sexpr]

def SwitchCase.sexpr : SwitchCase → Sexpr
  | ⟨pattern, predicate, body⟩ => .node [pattern.sexpr, predicate.sexpr] [body.sexpr]

def SwitchCase.sexprs : List SwitchCase → List Sexpr
  | [] => []
  | c :: rest => c.sexpr :: SwitchCase.sexprs rest

def Pattern.sexpr : Pattern → Sexpr
  | .value e => e.sexpr
  | .wildcard _ => .atom "_"

def FunctionDecl.sexpr : FunctionDecl → Sexpr
  | ⟨name, params, result, body⟩ =>
    .node
      [.atom "Stmt::Function", .atom name.lexeme, .form (params.map TypedName.sexpr),
        .atom result.name]
      body.sexprs

def FunctionDecl.sexprs : List FunctionDecl → List Sexpr
  | [] => []
  | f :: rest => f.sexpr :: FunctionDecl.sexprs rest

def Stmt.sexpr : Stmt → Sexpr
  | .breakLoop _ => .form [.atom "Stmt::Break"]
  | .continueLoop _ => .form [.atom "Stmt::Continue"]
  | .enumDecl name variants =>
    .node [.atom "Stmt::Enum", .atom name.lexeme] (variants.map TypedName.sexpr)
  | .expression expr => .form [.atom "Stmt::Expression", expr.sexpr]
  | .functionDecl decl => decl.sexpr
  | .implDecl typename trait? methods =>
    .node
      (.atom "Stmt::Impl" :: .atom typename.name ::
        (trait?.map fun t => Sexpr.atom t.name).toList)
      (FunctionDecl.sexprs methods)
  | .returnValue _ value => .form [.atom "Stmt::Return", value.sexpr]
  | .structDecl name fields =>
    .node [.atom "Stmt::Struct", .atom name.lexeme] (fields.map TypedName.sexpr)
  | .traitDecl name methods =>
    .node [.atom "Stmt::Trait", .atom name.lexeme] (FunctionDecl.sexprs methods)
  | .binding keyword name typename? initializer =>
    .form
      ([.atom "Stmt::Variable", .atom keyword.lexeme, .atom name.lexeme] ++
        (typename?.map fun t => Sexpr.atom t.name).toList ++ [initializer.sexpr])

def Stmt.sexprs : List Stmt → List Sexpr
  | [] => []
  | s :: rest => s.sexpr :: Stmt.sexprs rest

end

def Tree.sexpr : Tree → Sexpr
  | .stmt s => s.sexpr
  | .expr e => e.sexpr
  | .pattern p => p.sexpr

@[simp] theorem Expr.sexprs_eq_map (es : List Expr) : Expr.sexprs es = es.map Expr.sexpr := by
  induction es with
  | nil => rfl
  | cons e es ih => simp [Expr.sexprs, ih]

@[simp] theorem SwitchCase.sexprs_eq_map (cs : List SwitchCase) :
    SwitchCase.sexprs cs = cs.map SwitchCase.sexpr := by
  induction cs with
  | nil => rfl
  | cons c cs ih => simp [SwitchCase.sexprs, ih]

@[simp] theorem FunctionDecl.sexprs_eq_map (fs : List FunctionDecl) :
    FunctionDecl.sexprs fs = fs.map FunctionDecl.sexpr := by
  induction fs with
  | nil => rfl
  | cons f fs ih => simp [FunctionDecl.sexprs, ih]

@[simp] theorem Stmt.sexprs_eq_map (ss : List Stmt) : Stmt.sexprs ss = ss.map Stmt.sexpr := by
  induction ss with
  | nil => rfl
  | cons s ss ih => simp [Stmt.sexprs, ih]

def Tree.dump (t : Tree) : Except Fault String :=
  ((default : Printer).print t.sexpr).1

namespace Page

/-- Writes a statement and ends its last line. -/
def writeStmt (page : Page) (s : Stmt) : Except Printer Page :=
  (write s.sexpr page).map fun page => page.append "\n"

theorem writeStmt_eq (page : Page) (s : Stmt) :
    page.writeStmt s = page.extended (s.sexpr.fits page.printer.width page.printer.depth)
      (s.sexpr.text page.printer.width page.printer.depth ++ "\n") := by
  rw [writeStmt, write_eq]
  cases s.sexpr.fits page.printer.width page.printer.depth <;> simp [Except.map]

theorem foldlM_writeStmt (stmts : List Stmt) (page : Page) :
    stmts.foldlM writeStmt page =
      page.extended (stmts.all fun s => s.sexpr.fits page.printer.width page.printer.depth)
        (String.join (stmts.map fun s =>
          s.sexpr.text page.printer.width page.printer.depth ++ "\n")) := by
  induction stmts generalizing page with
  | nil => simp [pure, Except.pure]
  | cons s stmts ih =>
    rw [List.foldlM_cons, writeStmt_eq]
    cases h : s.sexpr.fits page.printer.width page.printer.depth with
    | false => simp [h, bind, Except.bind]
    | true => simp [h, ih, extended, bind, Except.bind, String.append_assoc]

end Page

/-- The text of a program: one printer writes every statement. -/
def Printer.printProgram (p : Printer) (stmts : List Stmt) : Except Fault String :=
  match stmts.foldlM Page.writeStmt ⟨p, ""⟩ with
  | .ok page => .ok page.text
  | .error _ => .error .indentTooWide

def dumpProgram (stmts : List Stmt) : Except Fault String :=
  (default : Printer).printProgram stmts

/-- A program is printed statement by statement, unless one of them does not fit. -/
theorem Printer.printProgram_eq (p : Printer) (stmts : List Stmt) :
    p.printProgram stmts =
      if stmts.all fun s => s.sexpr.fits p.width p.depth then
        .ok (String.join (stmts.map fun s => s.sexpr.text p.width p.depth ++ "\n"))
      else .error .indentTooWide := by
  rw [printProgram, Page.foldlM_writeStmt]
  cases stmts.all fun s => s.sexpr.fits p.width p.depth <;> simp [Page.append]

end LangCore
