import LangCore.Tree.Span

/-!
# Items of a tree

An item is anything in a tree that a walk can stop at. The items directly below
another are given once, in source order, and with annotations in front of the
code they annotate; everything that passes over whole trees follows this order.
-/

namespace LangCore

inductive Item
  | stmt (stmt : Stmt)
  | expr (expr : Expr)
  | pattern (pattern : Pattern)
  | block (block : Block)
  | function (decl : FunctionDecl)
  | typename (typename : Typename)

def Tree.item : Tree → Item
  | .stmt s => .stmt s
  | .expr e => .expr e
  | .pattern p => .pattern p

def TypedName.item (entry : TypedName) : Item :=
  .typename entry.typename

def SwitchCase.items (c : SwitchCase) : List Item :=
  [.pattern c.pattern, .expr c.predicate, .expr c.body]

/-- The typename of an interface comes before the type that implements it, and an annotation
before the initializer. -/
def Stmt.items : Stmt → List Item
  | .breakLoop _ | .continueLoop _ => []
  | .enumDecl _ variants => variants.map TypedName.item
  | .expression expr => [.expr expr]
  | .functionDecl decl => [.function decl]
  | .implDecl typename trait? methods =>
    trait?.toList.map Item.typename ++ .typename typename :: methods.map Item.function
  | .returnValue _ value => [.expr value]
  | .structDecl _ fields => fields.map TypedName.item
  | .traitDecl _ methods => methods.map Item.function
  | .binding _ _ typename? initializer =>
    typename?.toList.map Item.typename ++ [.expr initializer]

def Expr.items : Expr → List Item
  | .boolean _ _ | .float _ _ | .integer _ _ | .string _ _ | .symbol _ | .unit _ => []
  | .unary _ operand => [.expr operand]
  | .field object _ => [.expr object]
  | .assign target _ value => [.expr target, .expr value]
  | .binary left _ right | .logical left _ right => [.expr left, .expr right]
  | .call callee _ arguments => .expr callee :: arguments.map Item.expr
  | .block body => [.block body]
  | .ifElse _ condition thenBody elseBody => [.expr condition, .expr thenBody, .expr elseBody]
  | .forIn _ _ object body => [.expr object, .block body]
  | .whileDo _ condition body => [.expr condition, .block body]
  | .switch _ value cases => .expr value :: cases.flatMap SwitchCase.items

def Pattern.items : Pattern → List Item
  | .value e => [.expr e]
  | .wildcard _ => []

def Block.items (b : Block) : List Item :=
  b.stmts.map Item.stmt ++ [.expr b.result]

/-- Parameter types, the result type, then the body. -/
def FunctionDecl.items (f : FunctionDecl) : List Item :=
  f.params.map TypedName.item ++ [.typename f.result, .block f.body]

namespace Item

def children : Item → List Item
  | stmt s => s.items
  | expr e => e.items
  | pattern p => p.items
  | block b => b.items
  | function f => f.items
  | typename t => t.children.map Item.typename

end Item

theorem TypedName.sizeOf_item_lt {entry : TypedName} {entries : List TypedName}
    (h : entry ∈ entries) : sizeOf entry.item < 1 + sizeOf entries := by
  have := List.sizeOf_lt_of_mem h
  obtain ⟨name, typename⟩ := entry
  simp only [TypedName.mk.sizeOf_spec] at this
  simp only [item, Item.typename.sizeOf_spec]
  omega

theorem FunctionDecl.sizeOf_item_lt {f : FunctionDecl} {methods : List FunctionDecl}
    (h : f ∈ methods) : sizeOf (Item.function f) < 1 + sizeOf methods := by
  have := List.sizeOf_lt_of_mem h
  rw [Item.function.sizeOf_spec]
  omega

theorem Typename.sizeOf_item_lt {t : Typename} {typename? : Option Typename}
    (h : t ∈ typename?.toList) : sizeOf (Item.typename t) < 1 + sizeOf typename? := by
  obtain rfl := Option.mem_toList.1 h
  rw [Item.typename.sizeOf_spec, Option.some.sizeOf_spec]
  omega

theorem Block.sizeOf_lt_of_mem_items {b : Block} {item : Item} (h : item ∈ b.items) :
    sizeOf item < 1 + sizeOf b := by
  obtain ⟨brace, stmts, result⟩ := b
  rw [Block.mk.sizeOf_spec]
  simp only [items, List.mem_append, List.mem_map, List.mem_singleton] at h
  rcases h with ⟨s, hs, rfl⟩ | rfl
  · have := List.sizeOf_lt_of_mem hs
    rw [Item.stmt.sizeOf_spec]
    omega
  · rw [Item.expr.sizeOf_spec]
    omega

theorem FunctionDecl.sizeOf_lt_of_mem_items {f : FunctionDecl} {item : Item}
    (h : item ∈ f.items) : sizeOf item < 1 + sizeOf f := by
  obtain ⟨name, params, result, body⟩ := f
  rw [FunctionDecl.mk.sizeOf_spec]
  simp only [items, List.mem_append, List.mem_map, List.mem_cons, List.not_mem_nil,
    or_false] at h
  rcases h with ⟨entry, he, rfl⟩ | rfl | rfl
  · have := TypedName.sizeOf_item_lt he
    omega
  · rw [Item.typename.sizeOf_spec]
    omega
  · rw [Item.block.sizeOf_spec]
    omega

theorem SwitchCase.sizeOf_lt_of_mem_items {c : SwitchCase} {item : Item} (h : item ∈ c.items) :
    sizeOf item < 1 + sizeOf c := by
  obtain ⟨pattern, predicate, body⟩ := c
  rw [SwitchCase.mk.sizeOf_spec]
  simp only [items, List.mem_cons, List.not_mem_nil, or_false] at h
  rcases h with rfl | rfl | rfl
  · rw [Item.pattern.sizeOf_spec]
    omega
  · rw [Item.expr.sizeOf_spec]
    omega
  · rw [Item.expr.sizeOf_spec]
    omega

theorem Pattern.sizeOf_lt_of_mem_items {p : Pattern} {item : Item} (h : item ∈ p.items) :
    sizeOf item < 1 + sizeOf p := by
  cases p with
  | value e =>
    obtain rfl := List.mem_singleton.1 h
    rw [Item.expr.sizeOf_spec, value.sizeOf_spec]
    omega
  | wildcard => exact absurd h List.not_mem_nil

theorem Expr.sizeOf_lt_of_mem_items {e : Expr} {item : Item} (h : item ∈ e.items) :
    sizeOf item < 1 + sizeOf e := by
  cases e with
  | boolean | float | integer | string | symbol | unit => exact absurd h List.not_mem_nil
  | unary | field | block =>
    obtain rfl := List.mem_singleton.1 h
    simp only [Item.expr.sizeOf_spec, Item.block.sizeOf_spec, unary.sizeOf_spec,
      field.sizeOf_spec, block.sizeOf_spec]
    omega
  | assign | binary | logical | forIn | whileDo =>
    simp only [items, List.mem_cons, List.not_mem_nil, or_false] at h
    simp only [assign.sizeOf_spec, binary.sizeOf_spec, logical.sizeOf_spec,
      forIn.sizeOf_spec, whileDo.sizeOf_spec]
    rcases h with rfl | rfl
    · rw [Item.expr.sizeOf_spec]
      omega
    · simp only [Item.expr.sizeOf_spec, Item.block.sizeOf_spec]
      omega
  | ifElse keyword condition thenBody elseBody =>
    simp only [items, List.mem_cons, List.not_mem_nil, or_false] at h
    rw [ifElse.sizeOf_spec]
    rcases h with rfl | rfl | rfl
    all_goals
      rw [Item.expr.sizeOf_spec]
      omega
  | call callee paren arguments =>
    rw [call.sizeOf_spec]
    rcases List.mem_cons.1 h with rfl | h
    · rw [Item.expr.sizeOf_spec]
      omega
    · obtain ⟨a, ha, rfl⟩ := List.mem_map.1 h
      have := List.sizeOf_lt_of_mem ha
      rw [Item.expr.sizeOf_spec]
      omega
  | switch keyword value cases =>
    rw [switch.sizeOf_spec]
    rcases List.mem_cons.1 h with rfl | h
    · rw [Item.expr.sizeOf_spec]
      omega
    · obtain ⟨c, hc, hi⟩ := List.mem_flatMap.1 h
      have := List.sizeOf_lt_of_mem hc
      have := c.sizeOf_lt_of_mem_items hi
      omega

theorem Stmt.sizeOf_lt_of_mem_items {s : Stmt} {item : Item} (h : item ∈ s.items) :
    sizeOf item < 1 + sizeOf s := by
  cases s with
  | breakLoop | continueLoop => exact absurd h List.not_mem_nil
  | expression | functionDecl | returnValue =>
    obtain rfl := List.mem_singleton.1 h
    simp only [Item.expr.sizeOf_spec, Item.function.sizeOf_spec, expression.sizeOf_spec,
      functionDecl.sizeOf_spec, returnValue.sizeOf_spec]
    omega
  | enumDecl name entries | structDecl name entries =>
    obtain ⟨entry, he, rfl⟩ := List.mem_map.1 h
    have := TypedName.sizeOf_item_lt he
    simp only [enumDecl.sizeOf_spec, structDecl.sizeOf_spec]
    omega
  | traitDecl name methods =>
    obtain ⟨f, hf, rfl⟩ := List.mem_map.1 h
    have := f.sizeOf_item_lt hf
    rw [traitDecl.sizeOf_spec]
    omega
  | implDecl typename trait? methods =>
    rw [implDecl.sizeOf_spec]
    rcases List.mem_append.1 h with h | h
    · obtain ⟨t, ht, rfl⟩ := List.mem_map.1 h
      have := t.sizeOf_item_lt ht
      omega
    · rcases List.mem_cons.1 h with rfl | h
      · rw [Item.typename.sizeOf_spec]
        omega
      · obtain ⟨f, hf, rfl⟩ := List.mem_map.1 h
        have := f.sizeOf_item_lt hf
        omega
  | binding keyword name typename? initializer =>
    rw [binding.sizeOf_spec]
    rcases List.mem_append.1 h with h | h
    · obtain ⟨t, ht, rfl⟩ := List.mem_map.1 h
      have := t.sizeOf_item_lt ht
      omega
    · obtain rfl := List.mem_singleton.1 h
      rw [Item.expr.sizeOf_spec]
      omega

namespace Item

theorem sizeOf_lt_of_mem_children {item child : Item} (h : child ∈ item.children) :
    sizeOf child < sizeOf item := by
  cases item with
  | stmt s => simpa using s.sizeOf_lt_of_mem_items h
  | expr e => simpa using e.sizeOf_lt_of_mem_items h
  | pattern p => simpa using p.sizeOf_lt_of_mem_items h
  | block b => simpa using b.sizeOf_lt_of_mem_items h
  | function f => simpa using f.sizeOf_lt_of_mem_items h
  | typename t =>
    obtain ⟨c, hc, rfl⟩ := List.mem_map.1 h
    simpa using Typename.sizeOf_lt_of_mem_children hc

end Item
end LangCore
