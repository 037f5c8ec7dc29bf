import LangCore.Decimal.Style
import LangCore.Inspect.Basic
import LangCore.Tree.Basic

/-!
# Inspecting trees

A tree shows as the variant of its kind around the record of its parts. Tokens
and typenames have texts of their own.
-/

namespace LangCore

def Token.inspection (t : Token) : Inspection :=
  .word t.inspect

def Typename.inspection (t : Typename) : Inspection :=
  .word t.inspect

/-- A typed name, under the name it has where it stands. -/
def TypedName.inspection (role : String) (entry : TypedName) : Inspection :=
  .record role [("name", entry.name.inspection), ("typename", entry.typename.inspection)]

/-- The parts of a node of some kind and family. -/
def Inspection.node (kind family : String) (fields : List (String × Inspection)) : Inspection :=
  .variant kind (.record (kind ++ family) fields)

mutual

def Expr.inspection : Expr → Inspection
  | .assign target oper value => .node "Assign" "Expr"
      [("target", target.inspection), ("oper", oper.inspection), ("value", value.inspection)]
  | .binary left oper right => .node "Binary" "Expr"
      [("left", left.inspection), ("oper", oper.inspection), ("right", right.inspection)]
  | .block body => .variant "Block" body.inspection
  | .boolean token value => .node "Boolean" "Expr"
      [("token", token.inspection), ("value", .word (if value then "true" else "false"))]
  | .call callee paren arguments => .node "Call" "Expr"
      [("callee", callee.inspection), ("paren", paren.inspection),
        ("arguments", .list (Expr.inspections arguments))]
  | .field object name => .node "Field" "Expr"
      [("object", object.inspection), ("name", name.inspection)]
  | .float token value => .node "Float" "Expr"
      [("token", token.inspection), ("value", .word value.exactText)]
  | .forIn keyword name object body => .node "For" "Expr"
      [("keyword", keyword.inspection), ("name", name.inspection),
        ("object", object.inspection), ("body", body.inspection)]
  | .ifElse keyword condition thenBody elseBody => .node "If" "Expr"
      [("keyword", keyword.inspection), ("condition", condition.inspection),
        ("then_body", thenBody.inspection), ("else_body", elseBody.inspection)]
  | .integer token value => .node "Integer" "Expr"
      [("token", token.inspection), ("value", .word (toString value.toInt))]
  | .logical left oper right => .node "Logical" "Expr"
      [("left", left.inspection), ("oper", oper.inspection), ("right", right.inspection)]
  | .string token value => .node "String" "Expr"
      [("token", token.inspection), ("value", .quoted value)]
  | .switch keyword value cases => .node "Switch" "Expr"
      [("keyword", keyword.inspection), ("value", value.inspection),
        ("cases", .list (SwitchCase.inspections cases))]
  | .symbol name => .node "Symbol" "Expr" [("name", name.inspection)]
  | .unary oper operand => .node "Unary" "Expr"
      [("oper", oper.inspection), ("operand", operand.inspection)]
  | .unit token => .node "Unit" "Expr" [("token", token.inspection)]
  | .whileDo keyword condition body => .node "While" "Expr"
      [("keyword", keyword.inspection), ("condition", condition.inspection),
        ("body", body.inspection)]

def Expr.inspections : List Expr → List Inspection
  | [] => []
  | e :: rest => e.inspection :: Expr.inspections rest

def Block.inspection : Block → Inspection
  | ⟨brace, stmts, result⟩ => .record "BlockExpr"
      [("brace", brace.inspection), ("stmts", .list (Stmt.inspections stmts)),
        ("expr", result.inspection)]

def SwitchCase.inspection : SwitchCase → Inspection
  | ⟨pattern, predicate, body⟩ => .record "SwitchCase"
      [("pattern", pattern.inspection), ("predicate", predicate.inspection),
        ("body", body.inspection)]

def SwitchCase.inspections : List SwitchCase → List Inspection
  | [] => []
  | c :: rest => c.inspection :: SwitchCase.inspections rest

def Pattern.inspection : Pattern → Inspection
  | .value e => .node "Value" "Pattern" [("value", e.inspection)]
  | .wildcard token => .node "Wildcard" "Pattern" [("token", token.inspection)]

def FunctionDecl.inspection : FunctionDecl → Inspection
  | ⟨name, params, result, body⟩ => .record "FunctionStmt"
      [("name", name.inspection), ("params", .list (params.map (TypedName.inspection "Param"))),
        ("return_typename", result.inspection), ("body", body.inspection)]

def FunctionDecl.inspections : List FunctionDecl → List Inspection
  | [] => []
  | f :: rest => f.inspection :: FunctionDecl.inspections rest

def Stmt.inspection : Stmt → Inspection
  | .breakLoop keyword => .node "Break" "Stmt" [("keyword", keyword.inspection)]
  | .continueLoop keyword => .node "Continue" "Stmt" [("keyword", keyword.inspection)]
  | .enumDecl name variants => .node "Enum" "Stmt"
      [("name", name.inspection),
        ("variants", .list (variants.map (TypedName.inspection "EnumVariant")))]
  | .expression expr => .node "Expression" "Stmt" [("expr", expr.inspection)]
  | .functionDecl decl => .variant "Function" decl.inspection
  | .implDecl typename trait? methods => .node "Impl" "Stmt"
      [("typename", typename.inspection),
        ("trait_typename", .option (trait?.map Typename.inspection)),
        ("methods", .list (FunctionDecl.inspections methods))]
  | .returnValue keyword value => .node "Return" "Stmt"
      [("keyword", keyword.inspection), ("value", value.inspection)]
  | .structDecl name fields => .node "Struct" "Stmt"
      [("name", name.inspection),
        ("fields", .list (fields.map (TypedName.inspection "StructField")))]
  | .traitDecl name methods => .node "Trait" "Stmt"
      [("name", name.inspection), ("methods", .list (FunctionDecl.inspections methods))]
  | .binding keyword name typename? initializer => .node "Variable" "Stmt"
      [("keyword", keyword.inspection), ("name", name.inspection),
        ("typename", .option (typename?.map Typename.inspection)),
        ("initializer", initializer.inspection)]

def Stmt.inspections : List Stmt → List Inspection
  | [] => []
  | s :: rest => s.inspection :: Stmt.inspections rest

end

def Tree.inspection : Tree → Inspection
  | .stmt s => s.inspection
  | .expr e => e.inspection
  | .pattern p => p.inspection

def inspectProgram (stmts : List Stmt) : Inspection :=
  .list (Stmt.inspections stmts)

end LangCore
