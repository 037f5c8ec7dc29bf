import Mathlib
import LangCore.Proofs.Walk.Every

/-!
# Where spans come from

The span of a tree is merged from the spans of tokens in it, so each of its ends
is that of a token, and it is in order if the tokens are. An expression covers
its operands, however deep they are nested in one another, since merging two
spans covers both.
-/

namespace LangCore

namespace Span

/-- Reaches at least from where the other one starts to where it stops. -/
def Covers (outer inner : Span) : Prop :=
  outer.start ≤ inner.start ∧ inner.stop ≤ outer.stop

theorem Covers.refl (s : Span) : s.Covers s :=
  ⟨UInt32.le_refl _, UInt32.le_refl _⟩

theorem Covers.trans {a b c : Span} (hab : a.Covers b) (hbc : b.Covers c) : a.Covers c :=
  ⟨UInt32.le_trans hab.1 hbc.1, UInt32.le_trans hbc.2 hab.2⟩

theorem merge_stop_eq (a b : Span) :
    (a.merge b).stop = if a.stop ≤ b.stop then b.stop else a.stop := rfl

theorem merge_start_eq_or (a b : Span) :
    (a.merge b).start = a.start ∨ (a.merge b).start = b.start :=
  Std.min_eq_or

theorem merge_stop_eq_or (a b : Span) :
    (a.merge b).stop = a.stop ∨ (a.merge b).stop = b.stop := by
  rw [merge_stop_eq]
  split
  · exact .inr rfl
  · exact .inl rfl

theorem merge_covers_left (a b : Span) : (a.merge b).Covers a := by
  refine ⟨Std.min_le_left, ?_⟩
  rw [merge_stop_eq]
  split
  · assumption
  · exact UInt32.le_refl _

theorem merge_covers_right (a b : Span) : (a.merge b).Covers b := by
  refine ⟨Std.min_le_right, ?_⟩
  rw [merge_stop_eq]
  split
  · exact UInt32.le_refl _
  · exact (UInt32.le_total a.stop b.stop).resolve_left ‹_›

/-- `MergedFrom tokens s` says that `s` is the span of one of the tokens or merged from several. -/
inductive MergedFrom (tokens : List Token) : Span → Prop
  | token {t} : t ∈ tokens → MergedFrom tokens t.span
  | merge {a b} : MergedFrom tokens a → MergedFrom tokens b → MergedFrom tokens (a.merge b)

variable {tokens : List Token} {s : Span}

theorem MergedFrom.mono {more : List Token} (h : MergedFrom tokens s) (hsubset : tokens ⊆ more) :
    MergedFrom more s := by
  induction h with
  | token ht => exact .token (hsubset ht)
  | merge _ _ iha ihb => exact .merge iha ihb

theorem MergedFrom.exists_start (h : MergedFrom tokens s) :
    ∃ t ∈ tokens, t.span.start = s.start := by
  induction h with
  | token ht => exact ⟨_, ht, rfl⟩
  | @merge a b _ _ iha ihb =>
    rcases merge_start_eq_or a b with h | h <;> rwa [h]

theorem MergedFrom.exists_stop (h : MergedFrom tokens s) :
    ∃ t ∈ tokens, t.span.stop = s.stop := by
  induction h with
  | token ht => exact ⟨_, ht, rfl⟩
  | @merge a b _ _ iha ihb =>
    rcases merge_stop_eq_or a b with h | h <;> rwa [h]

theorem MergedFrom.start_le_stop (h : MergedFrom tokens s)
    (htokens : ∀ t ∈ tokens, t.span.start ≤ t.span.stop) : s.start ≤ s.stop := by
  induction h with
  | token ht => exact htokens _ ht
  | @merge a b _ _ iha _ =>
    obtain ⟨hstart, hstop⟩ := merge_covers_left a b
    exact UInt32.le_trans hstart (UInt32.le_trans iha hstop)

end Span

/-- The names of parameters, fields or variants, whose typenames are items of their own. -/
def TypedName.tokens (entries : List TypedName) : List Token :=
  entries.map TypedName.name

/-- The token that a typename is reported at, and the qualifiers of a reference. -/
def Typename.tokens : Typename → List Token
  | .reference label permission region _ => [label.location, permission, region]
  | t => [t.location]

theorem Typename.location_mem_tokens (t : Typename) : t.location ∈ t.tokens := by
  cases t <;> exact List.mem_cons_self

/-- The tokens of an expression apart from those of the items below it. -/
def Expr.tokens : Expr → List Token
  | .assign _ oper _ | .binary _ oper _ | .logical _ oper _ | .unary oper _ => [oper]
  | .boolean token _ | .float token _ | .integer token _ | .string token _ | .unit token => [token]
  | .block _ => []
  | .call _ paren _ => [paren]
  | .field _ name | .symbol name => [name]
  | .forIn keyword name _ _ => [keyword, name]
  | .ifElse keyword _ _ _ | .switch keyword _ _ | .whileDo keyword _ _ => [keyword]

/-- The tokens of a statement apart from those of the items below it. -/
def Stmt.tokens : Stmt → List Token
  | .breakLoop keyword | .continueLoop keyword | .returnValue keyword _ => [keyword]
  | .enumDecl name entries | .structDecl name entries => name :: TypedName.tokens entries
  | .expression _ | .functionDecl _ | .implDecl _ _ _ => []
  | .traitDecl name _ => [name]
  | .binding keyword name _ _ => [keyword, name]

namespace Item

/-- The tokens of an item apart from those of the items below it. -/
def ownTokens : Item → List Token
  | stmt s => s.tokens
  | expr e => e.tokens
  | pattern (.value _) => []
  | pattern (.wildcard token) => [token]
  | block b => [b.brace]
  | function f => f.name :: TypedName.tokens f.params
  | typename t => t.tokens

def tokens (item : Item) : List Token :=
  item.all.flatMap ownTokens

theorem tokens_eq (item : Item) :
    item.tokens = item.ownTokens ++ item.children.flatMap tokens := by
  rw [tokens, all_eq, List.flatMap_cons, List.flatMap_assoc]
  rfl

theorem ownTokens_subset (item : Item) : item.ownTokens ⊆ item.tokens := by
  rw [tokens_eq]
  exact List.subset_append_left _ _

theorem tokens_subset_of_mem_children {item c : Item} (h : c ∈ item.children) :
    c.tokens ⊆ item.tokens := by
  rw [tokens_eq item]
  exact fun t ht => List.mem_append_right _ (List.mem_flatMap.2 ⟨c, h, ht⟩)

end Item

namespace Span

theorem MergedFrom.of_mem_children {item c : Item} {s : Span} (h : MergedFrom c.tokens s)
    (hc : c ∈ item.children) : MergedFrom item.tokens s :=
  h.mono (Item.tokens_subset_of_mem_children hc)

theorem mergedFrom_of_mem_ownTokens {item : Item} {t : Token} (h : t ∈ item.ownTokens) :
    MergedFrom item.tokens t.span :=
  .token (item.ownTokens_subset h)

end Span

namespace Expr

theorem mergedFrom_span : ∀ e : Expr, Span.MergedFrom (Item.expr e).tokens e.span
  | assign left _ right | binary left _ right | logical left _ right => by
    rw [span]
    exact .merge (left.mergedFrom_span.of_mem_children List.mem_cons_self)
      (right.mergedFrom_span.of_mem_children (List.mem_cons_of_mem _ List.mem_cons_self))
  | call callee _ _ => by
    rw [span]
    exact .merge (callee.mergedFrom_span.of_mem_children List.mem_cons_self)
      (Span.mergedFrom_of_mem_ownTokens List.mem_cons_self)
  | field object _ => by
    rw [span]
    exact .merge (object.mergedFrom_span.of_mem_children List.mem_cons_self)
      (Span.mergedFrom_of_mem_ownTokens List.mem_cons_self)
  | unary _ operand => by
    rw [span]
    exact .merge (Span.mergedFrom_of_mem_ownTokens List.mem_cons_self)
      (operand.mergedFrom_span.of_mem_children List.mem_cons_self)
  | block body => by
    have hbrace : Span.MergedFrom (Item.block body).tokens body.brace.span :=
      Span.mergedFrom_of_mem_ownTokens List.mem_cons_self
    rw [span]
    exact hbrace.of_mem_children List.mem_cons_self
  | boolean _ _ | float _ _ | forIn _ _ _ _ | ifElse _ _ _ _ | integer _ _ | string _ _
  | switch _ _ _ | symbol _ | unit _ | whileDo _ _ _ => by
    rw [span]
    exact Span.mergedFrom_of_mem_ownTokens List.mem_cons_self

/-- The parts of an expression that its span is merged from. -/
inductive Operand : Expr → Expr → Prop
  | assignTarget {target oper value} : Operand (assign target oper value) target
  | assignValue {target oper value} : Operand (assign target oper value) value
  | binaryLeft {left oper right} : Operand (binary left oper right) left
  | binaryRight {left oper right} : Operand (binary left oper right) right
  | logicalLeft {left oper right} : Operand (logical left oper right) left
  | logicalRight {left oper right} : Operand (logical left oper right) right
  | unaryOperand {oper operand} : Operand (unary oper operand) operand
  | fieldObject {object name} : Operand (field object name) object
  | callCallee {callee paren arguments} : Operand (call callee paren arguments) callee

variable {e d : Expr}

theorem Operand.span_covers (h : Operand e d) : e.span.Covers d.span := by
  cases h with
  | assignTarget | binaryLeft | logicalLeft | fieldObject | callCallee =>
    rw [span]
    exact Span.merge_covers_left _ _
  | assignValue | binaryRight | logicalRight | unaryOperand =>
    rw [span]
    exact Span.merge_covers_right _ _

/-- An expression covers its operands, their operands and so on. -/
theorem span_covers_of_reachable (h : Relation.ReflTransGen Operand e d) :
    e.span.Covers d.span := by
  induction h with
  | refl => exact .refl _
  | tail _ hlast ih => exact ih.trans hlast.span_covers

end Expr

theorem Stmt.mergedFrom_span (s : Stmt) : Span.MergedFrom (Item.stmt s).tokens s.span := by
  cases s with
  | breakLoop | continueLoop | enumDecl | structDecl | traitDecl =>
    exact Span.mergedFrom_of_mem_ownTokens List.mem_cons_self
  | expression e => exact e.mergedFrom_span.of_mem_children List.mem_cons_self
  | functionDecl decl =>
    have hname : Span.MergedFrom (Item.function decl).tokens decl.name.span :=
      Span.mergedFrom_of_mem_ownTokens List.mem_cons_self
    exact hname.of_mem_children List.mem_cons_self
  | implDecl t trait? methods =>
    have hlocation : Span.MergedFrom (Item.typename t).tokens t.span :=
      Span.mergedFrom_of_mem_ownTokens t.location_mem_tokens
    exact hlocation.of_mem_children (List.mem_append_right _ List.mem_cons_self)
  | returnValue keyword value =>
    exact .merge (Span.mergedFrom_of_mem_ownTokens List.mem_cons_self)
      (value.mergedFrom_span.of_mem_children List.mem_cons_self)
  | binding keyword name typename? initializer =>
    exact .merge (Span.mergedFrom_of_mem_ownTokens List.mem_cons_self)
      (initializer.mergedFrom_span.of_mem_children
        (List.mem_append_right _ List.mem_cons_self))

theorem Pattern.mergedFrom_span (p : Pattern) :
    Span.MergedFrom (Item.pattern p).tokens p.span := by
  cases p with
  | value e => exact e.mergedFrom_span.of_mem_children List.mem_cons_self
  | wildcard => exact Span.mergedFrom_of_mem_ownTokens List.mem_cons_self

namespace Tree

theorem mergedFrom_span (tree : Tree) : Span.MergedFrom tree.item.tokens tree.span := by
  cases tree with
  | stmt s => exact s.mergedFrom_span
  | expr e => exact e.mergedFrom_span
  | pattern p => exact p.mergedFrom_span

/-- A tree starts where one of its tokens starts and stops where one stops, it is in order if all
of them are, and an expression covers whatever is reached through operands. -/
theorem span_bounds :
    (∀ tree : Tree,
      (∃ t ∈ tree.item.tokens, t.span.start = tree.span.start) ∧
      (∃ t ∈ tree.item.tokens, t.span.stop = tree.span.stop) ∧
      ((∀ t ∈ tree.item.tokens, t.span.start ≤ t.span.stop) →
        tree.span.start ≤ tree.span.stop)) ∧
    ∀ e d : Expr, Relation.ReflTransGen Expr.Operand e d → e.span.Covers d.span := by
  refine ⟨fun tree => ?_, fun e d h => Expr.span_covers_of_reachable h⟩
  have hspan := tree.mergedFrom_span
  exact ⟨hspan.exists_start, hspan.exists_stop, hspan.start_le_stop⟩

/-- The operator comes from no source, so the call of `b` starts before its name `a`. -/
theorem span_bounds_call_of_field :
    let name : Expr := .symbol ⟨"a", ⟨2, 3⟩, 1⟩
    let paren : Token := ⟨"(", ⟨5, 6⟩, 1⟩
    let call : Expr := .call (.field (.unary (.synthetic "-") name) ⟨"b", ⟨4, 5⟩, 1⟩) paren []
    (∀ t ∈ (Item.expr call).tokens, t.span.start ≤ t.span.stop) ∧
      Relation.ReflTransGen Expr.Operand call name ∧
      call.span = ⟨0, 6⟩ ∧ call.span.start ≤ call.span.stop ∧ call.span.Covers name.span := by
  intro name paren call
  have hordered : ∀ t ∈ (Item.expr call).tokens, t.span.start ≤ t.span.stop := by
    simp [call, name, paren, Item.tokens_eq, Item.ownTokens, Expr.tokens, Item.children,
      Expr.items, Token.synthetic, Span.dummy]
  have hreach : Relation.ReflTransGen Expr.Operand call name :=
    .head .callCallee (.head .fieldObject (.single .unaryOperand))
  exact ⟨hordered, hreach, rfl, (span_bounds.1 (.expr call)).2.2 hordered,
    span_bounds.2 call name hreach⟩

end Tree
end LangCore
