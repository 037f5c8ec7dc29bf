import LangCore.Tree.Basic

/-!
# Spans of trees

Operators and the expressions that read from left to right without a keyword
span from their first part to their last one. Everything else is found at the
token that introduces it.
-/

namespace LangCore

def Expr.span : Expr → Span
  | .assign target _ value => target.span.merge value.span
  | .binary left _ right => left.span.merge right.span
  | .block body => body.brace.span
  | .boolean token _ => token.span
  | .call callee paren _ => callee.span.merge paren.span
  | .field object name => object.span.merge name.span
  | .float token _ => token.span
  | .forIn keyword _ _ _ => keyword.span
  | .ifElse keyword _ _ _ => keyword.span
  | .integer token _ => token.span
  | .logical left _ right => left.span.merge right.span
  | .string token _ => token.span
  | .switch keyword _ _ => keyword.span
  | .symbol name => name.span
  | .unary oper operand => oper.span.merge operand.span
  | .unit token => token.span
  | .whileDo keyword _ _ => keyword.span

def Stmt.span : Stmt → Span
  | .breakLoop keyword => keyword.span
  | .continueLoop keyword => keyword.span
  | .enumDecl name _ => name.span
  | .expression expr => expr.span
  | .functionDecl decl => decl.name.span
  | .implDecl typename _ _ => typename.span
  | .returnValue keyword value => keyword.span.merge value.span
  | .structDecl name _ => name.span
  | .traitDecl name _ => name.span
  | .binding keyword _ _ initializer => keyword.span.merge initializer.span

def Pattern.span : Pattern → Span
  | .value e => e.span
  | .wildcard token => token.span

def Tree.span : Tree → Span
  | .stmt s => s.span
  | .expr e => e.span
  | .pattern p => p.span

end LangCore
