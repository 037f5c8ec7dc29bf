import LangCore.Tree.Basic
import LangCore.WorkList

/-!
# Releasing trees

Taking a node apart moves the expressions directly below it onto a work list and
leaves a childless node behind; the bodies of functions and methods are moved as
block expressions.
-/

namespace LangCore

/-- What stands in a node for an expression that was moved away. -/
def Expr.vacant : Expr := .unit .absent

def SwitchCase.detached (c : SwitchCase) : List Expr :=
  match c.pattern with
  | .value e => [e, c.predicate, c.body]
  | .wildcard _ => [c.predicate, c.body]

/-- A body as an expression of its own. -/
def FunctionDecl.bodyExpr (f : FunctionDecl) : Expr :=
  .block f.body

def Stmt.detached : Stmt → List Expr
  | .expression expr => [expr]
  | .returnValue _ value => [value]
  | .binding _ _ _ initializer => [initializer]
  | .functionDecl decl => [decl.bodyExpr]
  | .implDecl _ _ methods | .traitDecl _ methods => methods.map FunctionDecl.bodyExpr
  | .breakLoop _ | .continueLoop _ | .enumDecl _ _ | .structDecl _ _ => []

def Block.detached (b : Block) : List Expr :=
  b.stmts.flatMap Stmt.detached ++ [b.result]

def Block.emptied (b : Block) : Block :=
  ⟨b.brace, [], .vacant⟩

namespace Expr

/-- The expressions that move out of a node. -/
def detached : Expr → List Expr
  | assign target _ value => [target, value]
  | binary left _ right | logical left _ right => [left, right]
  | block body => body.detached
  | call callee _ arguments => callee :: arguments
  | field object _ => [object]
  | forIn _ _ object body => object :: body.detached
  | ifElse _ condition thenBody elseBody => [condition, thenBody, elseBody]
  | switch _ value cases => value :: cases.flatMap SwitchCase.detached
  | unary _ operand => [operand]
  | whileDo _ condition body => condition :: body.detached
  | boolean _ _ | float _ _ | integer _ _ | string _ _ | symbol _ | unit _ => []

def emptied : Expr → Expr
  | assign _ oper _ => assign vacant oper vacant
  | binary _ oper _ => binary vacant oper vacant
  | logical _ oper _ => logical vacant oper vacant
  | block body => block body.emptied
  | call _ paren _ => call vacant paren []
  | field _ name => field vacant name
  | forIn keyword name _ body => forIn keyword name vacant body.emptied
  | ifElse keyword _ _ _ => ifElse keyword vacant vacant vacant
  | switch keyword _ _ => switch keyword vacant []
  | unary oper _ => unary oper vacant
  | whileDo keyword _ body => whileDo keyword vacant body.emptied
  | boolean token value => boolean token value
  | float token value => float token value
  | integer token value => integer token value
  | string token value => string token value
  | symbol name => symbol name
  | unit token => unit token

end Expr

theorem FunctionDecl.sizeOf_bodyExpr_lt (f : FunctionDecl) : sizeOf f.bodyExpr < sizeOf f := by
  obtain ⟨⟨lexeme, span, line⟩, params, result, body⟩ := f
  simp only [bodyExpr, Expr.block.sizeOf_spec, FunctionDecl.mk.sizeOf_spec,
    Token.mk.sizeOf_spec]
  omega

theorem FunctionDecl.pendingSize_map_bodyExpr_lt (methods : List FunctionDecl) :
    pendingSize (methods.map bodyExpr) < sizeOf methods := by
  rw [List.map_eq_flatMap]
  refine pendingSize_flatMap_lt methods fun f _ => ?_
  rw [pendingSize_cons, pendingSize_nil, Nat.add_zero]
  exact f.sizeOf_bodyExpr_lt

theorem Stmt.pendingSize_detached_lt (s : Stmt) : pendingSize s.detached < sizeOf s := by
  cases s with
  | breakLoop | continueLoop | enumDecl | structDecl =>
    simp only [detached, pendingSize_nil, breakLoop.sizeOf_spec, continueLoop.sizeOf_spec,
      enumDecl.sizeOf_spec, structDecl.sizeOf_spec]
    omega
  | expression | returnValue | binding =>
    simp only [detached, pendingSize_cons, pendingSize_nil, expression.sizeOf_spec,
      returnValue.sizeOf_spec, binding.sizeOf_spec]
    omega
  | functionDecl decl =>
    have := decl.sizeOf_bodyExpr_lt
    simp only [detached, pendingSize_cons, pendingSize_nil, functionDecl.sizeOf_spec]
    omega
  | implDecl typename trait? methods | traitDecl name methods =>
    have := FunctionDecl.pendingSize_map_bodyExpr_lt methods
    simp only [detached, implDecl.sizeOf_spec, traitDecl.sizeOf_spec]
    omega

theorem Block.pendingSize_detached_lt (b : Block) : pendingSize b.detached < sizeOf b := by
  obtain ⟨brace, stmts, result⟩ := b
  have := pendingSize_flatMap_lt stmts fun s _ => s.pendingSize_detached_lt
  simp only [detached, pendingSize_append, pendingSize_cons, pendingSize_nil,
    Block.mk.sizeOf_spec]
  omega

theorem SwitchCase.pendingSize_detached_lt (c : SwitchCase) :
    pendingSize c.detached < sizeOf c := by
  obtain ⟨pattern, predicate, body⟩ := c
  cases pattern with
  | value e =>
    simp only [detached, pendingSize_cons, pendingSize_nil, SwitchCase.mk.sizeOf_spec,
      Pattern.value.sizeOf_spec]
    omega
  | wildcard token =>
    simp only [detached, pendingSize_cons, pendingSize_nil, SwitchCase.mk.sizeOf_spec]
    omega

theorem Expr.pendingSize_detached_lt (e : Expr) : pendingSize e.detached < sizeOf e := by
  cases e with
  | boolean | float | integer | string | symbol | unit =>
    simp only [detached, pendingSize_nil, boolean.sizeOf_spec, float.sizeOf_spec,
      integer.sizeOf_spec, string.sizeOf_spec, symbol.sizeOf_spec, unit.sizeOf_spec]
    omega
  | unary | field =>
    simp only [detached, pendingSize_cons, pendingSize_nil, unary.sizeOf_spec,
      field.sizeOf_spec]
    omega
  | assign | binary | logical | ifElse =>
    simp only [detached, pendingSize_cons, pendingSize_nil, assign.sizeOf_spec,
      binary.sizeOf_spec, logical.sizeOf_spec, ifElse.sizeOf_spec]
    omega
  | block body | forIn _ _ _ body | whileDo _ _ body =>
    have := body.pendingSize_detached_lt
    simp only [detached, pendingSize_cons, block.sizeOf_spec, forIn.sizeOf_spec,
      whileDo.sizeOf_spec]
    omega
  | call callee paren arguments =>
    have := pendingSize_lt_sizeOf arguments
    simp only [detached, pendingSize_cons, call.sizeOf_spec]
    omega
  | switch keyword value cases =>
    have := pendingSize_flatMap_lt cases fun c _ => c.pendingSize_detached_lt
    simp only [detached, pendingSize_cons, switch.sizeOf_spec]
    omega

/-- The nodes of an expression in the order of their release. -/
def Expr.release (e : Expr) : List Expr :=
  releaseAll Expr.detached Expr.pendingSize_detached_lt [e]

end LangCore
