import Mathlib
import LangCore.Proofs.Dump.Lookahead

/-!
# Reading dumps

A dump is read from left to right without knowing its width or depth. The word
behind an opening parenthesis tells the kind of a form, except that operators
are told apart by the vocabulary and by the number of operands. What a reader
returns is a bare tree, and characters that cannot be anything else are skipped
unseen.
-/

namespace LangCore

noncomputable section

/-- What is behind blanks and line breaks. -/
def skipBlanks (s : List Char) : List Char :=
  s.dropWhile fun c => c == ' ' || c == '\n'

def startsStmt : List Char → Bool
  | '(' :: s => ['S', 't', 'm', 't', ':', ':'].isPrefixOf (nextWord s).toList
  | _ => false

/-- The expression that an operator with two operands stands for. -/
def Vocabulary.binaryForm (v : Vocabulary) (oper : String) (left right : Expr) : Expr :=
  if v.isAssignment oper then .assign left (.synthetic oper) right
  else if v.isBinary oper then .binary left (.synthetic oper) right
  else .logical left (.synthetic oper) right

namespace Vocabulary

def readTypename (v : Vocabulary) (s : List Char) : Option (Typename × List Char) := do
  let (shape, s) ← TypeShape.NameReader.mk v.isPermission |>.readType s
  some (.basic ⟨String.ofList shape.chars, .absent⟩, s)

def readOptionalTypename (v : Vocabulary) (s : List Char) : Option (Option Typename × List Char) :=
  if blankAhead 0 false s then do
    let (typename, s) ← v |>.readTypename s
    some (some typename, s.drop 1)
  else some (none, s)

/-- Names with their types, up to the next parenthesis that closes. -/
def readTypedNames (v : Vocabulary) (s : List Char) : Option (List TypedName × List Char) :=
  match skipBlanks s with
  | '(' :: s => do
    let (typename, rest) ← v |>.readTypename ((pastWord s).drop 1)
    let (entries, rest) ← v |>.readTypedNames (rest.drop 1)
    some (⟨.synthetic (nextWord s), typename⟩ :: entries, rest)
  | s => some ([], s)
partial_fixpoint

mutual

def readExpr (v : Vocabulary) (s : List Char) : Option (Expr × List Char) :=
  match s with
  | '"' :: s =>
    let value := s.takeWhile (· != '"')
    some (.string .absent (String.ofList value), (s.dropWhile (· != '"')).drop 1)
  | '(' :: ')' :: s => some (.unit .absent, s)
  | '(' :: '(' :: s => do
    let (callee, s) ← v |>.readExpr (s.drop 2)
    let (arguments, s) ← v |>.readArguments s
    some (.call callee .absent arguments, s)
  | '(' :: s => v |>.readForm (nextWord s) ((pastWord s).drop 1)
  | s => some (.ofWord (nextWord s), pastWord s)
partial_fixpoint

/-- The form that starts with a word. -/
def readForm (v : Vocabulary) (word : String) (s : List Char) : Option (Expr × List Char) :=
  if word = "." then do
    let (object, s) ← v |>.readExpr s
    some (.field object (.synthetic (nextWord (s.drop 1))), (pastWord (s.drop 1)).drop 1)
  else if word = "Expr::Block" then do
    let (body, s) ← v |>.readBlock (s.drop 1)
    some (.block body, s.drop 2)
  else if word = "Expr::For" then do
    let (object, rest) ← v |>.readExpr ((pastWord (s.drop 1)).drop 1)
    let (body, rest) ← v |>.readBlock (rest.drop 3)
    some (.forIn .absent (.synthetic (nextWord (s.drop 1))) object body, rest.drop 2)
  else if word = "Expr::If" then do
    let (condition, s) ← v |>.readExpr s
    let (thenBody, s) ← v |>.readExpr (skipBlanks (s.drop 2))
    let (elseBody, s) ← v |>.readExpr (skipBlanks s)
    some (.ifElse .absent condition thenBody elseBody, s.drop 2)
  else if word = "Expr::Switch" then do
    let (value, s) ← v |>.readExpr s
    let (cases, s) ← v |>.readCases (s.drop 2)
    some (.switch .absent value cases, s.drop 2)
  else if word = "Expr::While" then do
    let (condition, s) ← v |>.readExpr s
    let (body, s) ← v |>.readBlock (s.drop 2)
    some (.whileDo .absent condition body, s.drop 2)
  else do
    let (left, s) ← v |>.readExpr s
    match s with
    | ')' :: s => some (.unary (.synthetic word) left, s)
    | s => do
      let (right, s) ← v |>.readExpr (s.drop 1)
      some (v.binaryForm word left right, s.drop 1)
partial_fixpoint

def readArguments (v : Vocabulary) (s : List Char) : Option (List Expr × List Char) :=
  match s with
  | ' ' :: s => do
    let (argument, s) ← v |>.readExpr s
    let (arguments, s) ← v |>.readArguments s
    some (argument :: arguments, s)
  | s => some ([], s.drop 1)
partial_fixpoint

/-- Statements on lines of their own and the expression on the last line. -/
def readBlock (v : Vocabulary) (s : List Char) : Option (Block × List Char) :=
  if startsStmt (skipBlanks s) then do
    let (stmt, s) ← v |>.readStmt (skipBlanks s)
    let (body, s) ← v |>.readBlock s
    some (⟨.absent, stmt :: body.stmts, body.result⟩, s)
  else do
    let (result, s) ← v |>.readExpr (skipBlanks s)
    some (⟨.absent, [], result⟩, s)
partial_fixpoint

def readCases (v : Vocabulary) (s : List Char) : Option (List SwitchCase × List Char) :=
  match skipBlanks s with
  | '(' :: s => do
    let (pattern, s) ← v |>.readPattern s
    let (predicate, s) ← v |>.readExpr (s.drop 1)
    let (body, s) ← v |>.readExpr (skipBlanks (s.drop 2))
    let (cases, s) ← v |>.readCases (s.drop 2)
    some (⟨pattern, predicate, body⟩ :: cases, s)
  | s => some ([], s)
partial_fixpoint

def readPattern (v : Vocabulary) (s : List Char) : Option (Pattern × List Char) :=
  if nextWord s = "_" then some (.wildcard .absent, pastWord s)
  else do
    let (value, s) ← v |>.readExpr s
    some (.value value, s)
partial_fixpoint

def readFunction (v : Vocabulary) (s : List Char) : Option (FunctionDecl × List Char) := do
  let name := (pastWord (s.drop 1)).drop 1
  let (params, rest) ← v |>.readTypedNames ((pastWord name).drop 2)
  let (result, rest) ← v |>.readTypename (rest.drop 2)
  let (body, rest) ← v |>.readBlock (rest.drop 2)
  some (⟨.synthetic (nextWord name), params, result, body⟩, rest.drop 2)
partial_fixpoint

def readMethods (v : Vocabulary) (s : List Char) : Option (List FunctionDecl × List Char) :=
  match skipBlanks s with
  | '(' :: s => do
    let (method, s) ← v |>.readFunction ('(' :: s)
    let (methods, s) ← v |>.readMethods s
    some (method :: methods, s)
  | s => some ([], s)
partial_fixpoint

def readStmt (v : Vocabulary) (s : List Char) : Option (Stmt × List Char) :=
  let word := nextWord (s.drop 1)
  if word = "Stmt::Function" then do
    let (decl, s) ← v |>.readFunction s
    some (.functionDecl decl, s)
  else v |>.readStmtForm word ((pastWord (s.drop 1)).drop 1)
partial_fixpoint

def readStmtForm (v : Vocabulary) (word : String) (s : List Char) : Option (Stmt × List Char) :=
  if word = "Stmt::Break" then some (.breakLoop .absent, s)
  else if word = "Stmt::Continue" then some (.continueLoop .absent, s)
  else if word = "Stmt::Enum" then do
    let (variants, rest) ← v |>.readTypedNames ((pastWord s).drop 2)
    some (.enumDecl (.synthetic (nextWord s)) variants, rest.drop 2)
  else if word = "Stmt::Expression" then do
    let (expr, s) ← v |>.readExpr s
    some (.expression expr, s.drop 1)
  else if word = "Stmt::Impl" then do
    let (typename, s) ← v |>.readTypename s
    let (trait?, s) ← v |>.readOptionalTypename (s.drop 1)
    let (methods, s) ← v |>.readMethods (s.drop 1)
    some (.implDecl typename trait? methods, s.drop 2)
  else if word = "Stmt::Return" then do
    let (value, s) ← v |>.readExpr s
    some (.returnValue .absent value, s.drop 1)
  else if word = "Stmt::Struct" then do
    let (fields, rest) ← v |>.readTypedNames ((pastWord s).drop 2)
    some (.structDecl (.synthetic (nextWord s)) fields, rest.drop 2)
  else if word = "Stmt::Trait" then do
    let (methods, rest) ← v |>.readMethods ((pastWord s).drop 2)
    some (.traitDecl (.synthetic (nextWord s)) methods, rest.drop 2)
  else do
    let name := (pastWord s).drop 1
    let (typename?, rest) ← v |>.readOptionalTypename ((pastWord name).drop 1)
    let (initializer, rest) ← v |>.readExpr rest
    some (.binding (.synthetic (nextWord s)) (.synthetic (nextWord name)) typename? initializer,
      rest.drop 1)
partial_fixpoint

end

def readProgram (v : Vocabulary) (s : List Char) : Option (List Stmt) :=
  match s with
  | [] => some []
  | s => do
    let (stmt, s) ← v |>.readStmt s
    let stmts ← v |>.readProgram (s.drop 1)
    some (stmt :: stmts)
partial_fixpoint

end Vocabulary

end

end LangCore
