import Mathlib
import LangCore.Dump.Tree

/-!
# Bare trees

A bare tree has no source positions and no tokens that are never printed, and
its typenames are reduced to the names they are compared by. Two trees have the
same bare tree when they differ in nothing else, so equal bare trees print alike
at every width and depth.
-/

namespace LangCore

/-- The token without its place. -/
def Token.bare (t : Token) : Token := .synthetic t.lexeme

@[simp] theorem Token.lexeme_bare (t : Token) : t.bare.lexeme = t.lexeme := rfl

/-- What equality of typenames depends on. -/
def Typename.bare (t : Typename) : Typename := .basic ⟨t.name, .absent⟩

@[simp] theorem Typename.name_bare (t : Typename) : t.bare.name = t.name := rfl

def TypedName.bare (entry : TypedName) : TypedName := ⟨entry.name.bare, entry.typename.bare⟩

mutual

def Expr.bare : Expr → Expr
  | .assign target oper value => .assign target.bare oper.bare value.bare
  | .binary left oper right => .binary left.bare oper.bare right.bare
  | .block body => .block body.bare
  | .boolean _ value => .boolean .absent value
  | .call callee _ arguments => .call callee.bare .absent (Expr.bares arguments)
  | .field object name => .field object.bare name.bare
  | .float _ value => .float .absent value
  | .forIn _ name object body => .forIn .absent name.bare object.bare body.bare
  | .ifElse _ condition thenBody elseBody =>
    .ifElse .absent condition.bare thenBody.bare elseBody.bare
  | .integer _ value => .integer .absent value
  | .logical left oper right => .logical left.bare oper.bare right.bare
  | .string _ value => .string .absent value
  | .switch _ value cases => .switch .absent value.bare (SwitchCase.bares cases)
  | .symbol name => .symbol name.bare
  | .unary oper operand => .unary oper.bare operand.bare
  | .unit _ => .unit .absent
  | .whileDo _ condition body => .whileDo .absent condition.bare body.bare

def Expr.bares : List Expr → List Expr
  | [] => []
  | e :: rest => e.bare :: Expr.bares rest

def Block.bare : Block → Block
  | ⟨_, stmts, result⟩ => ⟨.absent, Stmt.bares stmts, result.bare⟩

def SwitchCase.bare : SwitchCase → SwitchCase
  | ⟨pattern, predicate, body⟩ => ⟨pattern.bare, predicate.bare, body.bare⟩

def SwitchCase.bares : List SwitchCase → List SwitchCase
  | [] => []
  | c :: rest => c.bare :: SwitchCase.bares rest

def Pattern.bare : Pattern → Pattern
  | .value e => .value e.bare
  | .wildcard _ => .wildcard .absent

def FunctionDecl.bare : FunctionDecl → FunctionDecl
  | ⟨name, params, result, body⟩ =>
    ⟨name.bare, params.map TypedName.bare, result.bare, body.bare⟩

def FunctionDecl.bares : List FunctionDecl → List FunctionDecl
  | [] => []
  | f :: rest => f.bare :: FunctionDecl.bares rest

def Stmt.bare : Stmt → Stmt
  | .breakLoop _ => .breakLoop .absent
  | .continueLoop _ => .continueLoop .absent
  | .enumDecl name variants => .enumDecl name.bare (variants.map TypedName.bare)
  | .expression expr => .expression expr.bare
  | .functionDecl decl => .functionDecl decl.bare
  | .implDecl typename trait? methods =>
    .implDecl typename.bare (trait?.map Typename.bare) (FunctionDecl.bares methods)
  | .returnValue _ value => .returnValue .absent value.bare
  | .structDecl name fields => .structDecl name.bare (fields.map TypedName.bare)
  | .traitDecl name methods => .traitDecl name.bare (FunctionDecl.bares methods)
  | .binding keyword name typename? initializer =>
    .binding keyword.bare name.bare (typename?.map Typename.bare) initializer.bare

def Stmt.bares : List Stmt → List Stmt
  | [] => []
  | s :: rest => s.bare :: Stmt.bares rest

end

@[simp] theorem Expr.bares_eq_map (es : List Expr) : Expr.bares es = es.map Expr.bare := by
  induction es with
  | nil => rfl
  | cons e es ih => simp [Expr.bares, ih]

@[simp] theorem SwitchCase.bares_eq_map (cs : List SwitchCase) :
    SwitchCase.bares cs = cs.map SwitchCase.bare := by
  induction cs with
  | nil => rfl
  | cons c cs ih => simp [SwitchCase.bares, ih]

@[simp] theorem FunctionDecl.bares_eq_map (fs : List FunctionDecl) :
    FunctionDecl.bares fs = fs.map FunctionDecl.bare := by
  induction fs with
  | nil => rfl
  | cons f fs ih => simp [FunctionDecl.bares, ih]

@[simp] theorem Stmt.bares_eq_map (ss : List Stmt) : Stmt.bares ss = ss.map Stmt.bare := by
  induction ss with
  | nil => rfl
  | cons s ss ih => simp [Stmt.bares, ih]

@[simp] theorem TypedName.sexpr_bare (entry : TypedName) : entry.bare.sexpr = entry.sexpr := rfl

mutual

theorem Expr.sexpr_bare : ∀ e : Expr, e.bare.sexpr = e.sexpr
  | .assign target _ value => by simp [Expr.bare, Expr.sexpr, target.sexpr_bare, value.sexpr_bare]
  | .binary left _ right | .logical left _ right => by
    simp [Expr.bare, Expr.sexpr, left.sexpr_bare, right.sexpr_bare]
  | .block body => by simp [Expr.bare, Expr.sexpr, body.sexprs_bare]
  | .boolean _ _ | .float _ _ | .integer _ _ | .string _ _ | .symbol _ | .unit _ => rfl
  | .call callee _ arguments => by
    have h := Expr.sexprs_bares arguments
    simp only [Expr.bares_eq_map, Expr.sexprs_eq_map] at h
    simp [Expr.bare, Expr.sexpr, callee.sexpr_bare, h]
  | .field object _ => by simp [Expr.bare, Expr.sexpr, object.sexpr_bare]
  | .forIn _ _ object body => by simp [Expr.bare, Expr.sexpr, object.sexpr_bare, body.sexprs_bare]
  | .ifElse _ condition thenBody elseBody => by
    simp [Expr.bare, Expr.sexpr, condition.sexpr_bare, thenBody.sexpr_bare, elseBody.sexpr_bare]
  | .switch _ value cases => by
    have h := SwitchCase.sexprs_bares cases
    simp only [SwitchCase.bares_eq_map, SwitchCase.sexprs_eq_map] at h
    simp [Expr.bare, Expr.sexpr, value.sexpr_bare, h]
  | .unary _ operand => by simp [Expr.bare, Expr.sexpr, operand.sexpr_bare]
  | .whileDo _ condition body => by
    simp [Expr.bare, Expr.sexpr, condition.sexpr_bare, body.sexprs_bare]

theorem Expr.sexprs_bares : ∀ es : List Expr, Expr.sexprs (Expr.bares es) = Expr.sexprs es
  | [] => rfl
  | e :: rest => by rw [Expr.bares, Expr.sexprs, Expr.sexprs, e.sexpr_bare, Expr.sexprs_bares rest]

theorem Block.sexprs_bare : ∀ b : Block, b.bare.sexprs = b.sexprs
  | ⟨_, stmts, result⟩ => by
    rw [Block.bare, Block.sexprs, Block.sexprs, Stmt.sexprs_bares stmts, result.sexpr_bare]

theorem SwitchCase.sexpr_bare : ∀ c : SwitchCase, c.bare.sexpr = c.sexpr
  | ⟨pattern, predicate, body⟩ => by
    simp [SwitchCase.bare, SwitchCase.sexpr, pattern.sexpr_bare, predicate.sexpr_bare,
      body.sexpr_bare]

theorem SwitchCase.sexprs_bares :
    ∀ cs : List SwitchCase, SwitchCase.sexprs (SwitchCase.bares cs) = SwitchCase.sexprs cs
  | [] => rfl
  | c :: rest => by
    rw [SwitchCase.bares, SwitchCase.sexprs, SwitchCase.sexprs, c.sexpr_bare,
      SwitchCase.sexprs_bares rest]

theorem Pattern.sexpr_bare : ∀ p : Pattern, p.bare.sexpr = p.sexpr
  | .value e => by simp [Pattern.bare, Pattern.sexpr, e.sexpr_bare]
  | .wildcard _ => rfl

theorem FunctionDecl.sexpr_bare : ∀ f : FunctionDecl, f.bare.sexpr = f.sexpr
  | ⟨_, _, _, body⟩ => by simp [FunctionDecl.bare, FunctionDecl.sexpr, body.sexprs_bare]

theorem FunctionDecl.sexprs_bares :
    ∀ fs : List FunctionDecl, FunctionDecl.sexprs (FunctionDecl.bares fs) = FunctionDecl.sexprs fs
  | [] => rfl
  | f :: rest => by
    rw [FunctionDecl.bares, FunctionDecl.sexprs, FunctionDecl.sexprs, f.sexpr_bare,
      FunctionDecl.sexprs_bares rest]

theorem Stmt.sexpr_bare : ∀ s : Stmt, s.bare.sexpr = s.sexpr
  | .breakLoop _ | .continueLoop _ => rfl
  | .enumDecl _ _ | .structDecl _ _ => by simp [Stmt.bare, Stmt.sexpr]
  | .expression expr => by simp [Stmt.bare, Stmt.sexpr, expr.sexpr_bare]
  | .functionDecl decl => by simp [Stmt.bare, Stmt.sexpr, decl.sexpr_bare]
  | .implDecl _ trait? methods => by
    have h := FunctionDecl.sexprs_bares methods
    simp only [FunctionDecl.bares_eq_map, FunctionDecl.sexprs_eq_map] at h
    cases trait? <;> simp [Stmt.bare, Stmt.sexpr, h]
  | .returnValue _ value => by simp [Stmt.bare, Stmt.sexpr, value.sexpr_bare]
  | .traitDecl _ methods => by
    have h := FunctionDecl.sexprs_bares methods
    simp only [FunctionDecl.bares_eq_map, FunctionDecl.sexprs_eq_map] at h
    simp [Stmt.bare, Stmt.sexpr, h]
  | .binding _ _ typename? initializer => by
    cases typename? <;> simp [Stmt.bare, Stmt.sexpr, initializer.sexpr_bare]

theorem Stmt.sexprs_bares : ∀ ss : List Stmt, Stmt.sexprs (Stmt.bares ss) = Stmt.sexprs ss
  | [] => rfl
  | s :: rest => by rw [Stmt.bares, Stmt.sexprs, Stmt.sexprs, s.sexpr_bare, Stmt.sexprs_bares rest]

end

end LangCore
