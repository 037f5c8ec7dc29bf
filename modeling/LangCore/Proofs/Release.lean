import Mathlib
import LangCore.Proofs.Walk.Every
import LangCore.Proofs.Walk.Inventories
import LangCore.Tree.Release
import LangCore.Typename.Release

/-!
# Every node is released once

A work list is emptied turn by turn. Each turn takes off what was moved last and
moves its own parts onto the list, so as long as a whole consists of itself and
what its parts consist of, the list gives off all of it, and nothing twice.

What moves out of an expression is found where a walk finds it: the expressions
that a walk meets are released, and every function body besides, as the block
that it was moved as.
-/

namespace LangCore

section WorkList

variable {α : Type} [SizeOf α] {detached : α → List α}
  (smaller : ∀ a, pendingSize (detached a) < sizeOf a)

/-- Takes off what was moved last and moves its parts onto the work list. -/
def turn {α : Type} (detached : α → List α) : List α → List α
  | [] => []
  | a :: rest => (detached a).reverse ++ rest

/-- The turns take off what is listed as released, in this order. -/
theorem head?_iterate_turn (k : ℕ) (pending : List α) :
    ((turn detached)^[k] pending).head? = (releaseAll detached smaller pending)[k]? := by
  induction k generalizing pending with
  | zero =>
    cases pending with
    | nil => rw [releaseAll_nil]; rfl
    | cons a rest => rw [releaseAll_cons]; rfl
  | succ k ih =>
    rw [Function.iterate_succ_apply, ih]
    cases pending with
    | nil => rw [turn, releaseAll_nil]; rfl
    | cons a rest => rw [turn, releaseAll_cons, List.getElem?_cons_succ]

theorem iterate_turn_length (pending : List α) :
    (turn detached)^[(releaseAll detached smaller pending).length] pending = [] := by
  rw [← List.head?_eq_none_iff, head?_iterate_turn smaller]
  exact List.getElem?_eq_none le_rfl

/-- A work list gives off all that its entries consist of. The turns make the rest shorter,
counted by what is still to be given off. -/
theorem releaseAll_perm_flatMap {all : α → List α}
    (hall : ∀ a, (all a).Perm (a :: (detached a).flatMap all)) (pending : List α) :
    (releaseAll detached smaller pending).Perm (pending.flatMap all) := by
  cases pending with
  | nil => rw [releaseAll_nil]; rfl
  | cons a rest =>
    have hturn : ((a :: rest).flatMap all).Perm
        (a :: ((detached a).reverse ++ rest).flatMap all) := by
      rw [List.flatMap_cons, List.flatMap_append]
      have hreverse := ((detached a).reverse_perm.flatMap_right all).symm
      exact ((hall a).append_right _).trans ((hreverse.append_right _).cons a)
    have hlength := hturn.length_eq
    have ih := releaseAll_perm_flatMap hall ((detached a).reverse ++ rest)
    rw [releaseAll_cons]
    exact (ih.cons a).trans hturn.symm
termination_by (pending.flatMap all).length
decreasing_by
  rw [hlength]
  exact Nat.lt_succ_self _

end WorkList

theorem Typename.release_perm_nodes (t : Typename) : t.release.Perm t.nodes := by
  have hnodes : ∀ u : Typename, u.nodes.Perm (u :: u.detached.flatMap nodes) := by
    intro u
    rw [nodes_eq]
    exact (u.detached_perm_children.symm.flatMap_right nodes).cons u
  have h := releaseAll_perm_flatMap pendingSize_detached_lt hnodes [t]
  rwa [List.flatMap_singleton] at h

namespace Item

def expr? : Item → Option Expr
  | expr e => some e
  | _ => none

def function? : Item → Option FunctionDecl
  | function f => some f
  | _ => none

/-- The expression that an item is released as. -/
def released? : Item → Option Expr
  | expr e => some e
  | function f => some f.bodyExpr
  | _ => none

/-- The expressions that the items from here down are released as. -/
def released (item : Item) : List Expr :=
  item.all.filterMap released?

theorem released_of_none {item : Item} (h : item.released? = none) :
    item.released = item.children.flatMap released := by
  rw [released, all_eq, List.filterMap_cons_none h, List.filterMap_flatMap]
  rfl

theorem released_of_some {item : Item} {e : Expr} (h : item.released? = some e) :
    item.released = e :: item.children.flatMap released := by
  rw [released, all_eq, List.filterMap_cons_some h, List.filterMap_flatMap]
  rfl

theorem released_typename (t : Typename) : (typename t).released = [] := by
  rw [released, all_typename, List.filterMap_map, List.filterMap_eq_nil_iff]
  exact fun _ _ => rfl

theorem flatMap_released_typenames {α : Type} (typenameOf : α → Typename) (xs : List α) :
    (xs.map fun x => typename (typenameOf x)).flatMap released = [] := by
  rw [List.flatMap_map, List.flatMap_eq_nil_iff]
  exact fun x _ => released_typename (typenameOf x)

theorem released_function (f : FunctionDecl) :
    (function f).released = (expr f.bodyExpr).released := by
  have hparams : (f.params.map TypedName.item).flatMap released = [] :=
    flatMap_released_typenames TypedName.typename f.params
  have hitems : f.items.flatMap released = (block f.body).released := by
    rw [FunctionDecl.items, List.flatMap_append, hparams, List.flatMap_cons, released_typename,
      List.flatMap_singleton]
    rfl
  have hbody : f.bodyExpr.items.flatMap released = (block f.body).released :=
    List.flatMap_singleton released (block f.body)
  rw [released_of_some rfl, released_of_some rfl]
  exact congrArg _ (hitems.trans hbody.symm)

theorem flatMap_released_functions (methods : List FunctionDecl) :
    (methods.map function).flatMap released =
      (methods.map FunctionDecl.bodyExpr).flatMap fun e => (expr e).released := by
  rw [List.flatMap_map, List.flatMap_map]
  exact List.flatMap_congr fun f _ => released_function f

/-- The released expressions are those that a walk meets and the bodies of the functions that
it meets. -/
theorem filterMap_released_perm (items : List Item) :
    (items.filterMap released?).Perm
      (items.filterMap expr? ++ (items.filterMap function?).map FunctionDecl.bodyExpr) := by
  induction items with
  | nil => rfl
  | cons item items ih =>
    cases item with
    | expr e => exact ih.cons e
    | function f => exact (ih.cons f.bodyExpr).trans List.perm_middle.symm
    | stmt | pattern | block | typename => exact ih

end Item

def Expr.released (e : Expr) : List Expr :=
  (Item.expr e).released

theorem Stmt.released_item (s : Stmt) :
    (Item.stmt s).released = s.detached.flatMap Expr.released := by
  rw [Item.released_of_none rfl]
  cases s with
  | breakLoop | continueLoop | expression | returnValue => rfl
  | enumDecl name entries | structDecl name entries =>
    exact Item.flatMap_released_typenames TypedName.typename entries
  | functionDecl decl => exact Item.flatMap_released_functions [decl]
  | traitDecl name methods => exact Item.flatMap_released_functions methods
  | implDecl t trait? methods =>
    have htrait := Item.flatMap_released_typenames id trait?.toList
    have hmethods := Item.flatMap_released_functions methods
    rw [Item.children, items, List.flatMap_append, List.flatMap_cons, Item.released_typename,
      hmethods]
    exact congrArg (· ++ _) htrait
  | binding keyword name typename? initializer =>
    have htypename := Item.flatMap_released_typenames id typename?.toList
    rw [Item.children, items, List.flatMap_append]
    exact congrArg (· ++ _) htypename

theorem Block.released_item (b : Block) :
    (Item.block b).released = b.detached.flatMap Expr.released := by
  rw [Item.released_of_none rfl, Item.children, items, detached, List.flatMap_append,
    List.flatMap_append, List.flatMap_map, List.flatMap_assoc,
    List.flatMap_congr fun s _ => s.released_item]
  rfl

theorem SwitchCase.released_items (c : SwitchCase) :
    c.items.flatMap Item.released = c.detached.flatMap Expr.released := by
  obtain ⟨pattern, predicate, body⟩ := c
  have hpattern : (Item.pattern pattern).released = pattern.items.flatMap Item.released :=
    Item.released_of_none rfl
  rw [items, List.flatMap_cons, hpattern]
  cases pattern with
  | value e => rw [Pattern.items, List.flatMap_singleton]; rfl
  | wildcard => rfl

namespace Expr

theorem released_items (e : Expr) :
    e.items.flatMap Item.released = e.detached.flatMap released := by
  cases e with
  | boolean | float | integer | string | symbol | unit => rfl
  | unary | field | assign | binary | logical | ifElse => rfl
  | call callee paren arguments =>
    rw [items, detached, List.flatMap_cons, List.flatMap_cons, List.flatMap_map]
    rfl
  | block body =>
    rw [items, List.flatMap_singleton]
    exact body.released_item
  | forIn keyword name object body =>
    rw [items, detached, List.flatMap_cons, List.flatMap_singleton, body.released_item]
    rfl
  | whileDo keyword condition body =>
    rw [items, detached, List.flatMap_cons, List.flatMap_singleton, body.released_item]
    rfl
  | switch keyword value cases =>
    rw [items, detached, List.flatMap_cons, List.flatMap_cons, List.flatMap_assoc,
      List.flatMap_assoc, List.flatMap_congr fun c _ => c.released_items]
    rfl

theorem released_eq (e : Expr) : e.released = e :: e.detached.flatMap released := by
  rw [← released_items]
  exact Item.released_of_some rfl

/-- An expression is released as the expressions that a walk from it meets and the bodies of the
functions that it meets. -/
theorem release_perm_all (e : Expr) :
    e.release.Perm ((Item.expr e).all.filterMap Item.expr? ++
      ((Item.expr e).all.filterMap Item.function?).map FunctionDecl.bodyExpr) := by
  have h := releaseAll_perm_flatMap pendingSize_detached_lt
    (fun d => List.Perm.of_eq d.released_eq) [e]
  rw [List.flatMap_singleton] at h
  exact h.trans (Item.filterMap_released_perm _)

end Expr

namespace Item

/-- A placeholder, or a block with nothing left in it but one. -/
def IsVacant (item : Item) : Prop :=
  item = .expr .vacant ∨ ∃ brace, item = .block ⟨brace, [], .vacant⟩

theorem IsVacant.every {item : Item} (h : item.IsVacant) : item.Every IsVacant := by
  have hplaceholder : (expr .vacant).Every IsVacant :=
    every_iff.2 ⟨.inl rfl, List.forall_mem_nil _⟩
  rcases h with rfl | ⟨brace, rfl⟩
  · exact hplaceholder
  · exact every_iff.2 ⟨.inr ⟨brace, rfl⟩, List.forall_mem_singleton.2 hplaceholder⟩

theorem IsVacant.holds_placeholders {item : Item} (h : item.IsVacant) :
    (∀ e, item = expr e → e = .vacant) ∧ ∀ s, item ≠ stmt s := by
  rcases h with rfl | ⟨brace, rfl⟩
  · exact ⟨fun e he => (Item.expr.inj he).symm, nofun⟩
  · exact ⟨nofun, nofun⟩

end Item

theorem Expr.isVacant_of_mem_items_emptied {e : Expr} {c : Item} (h : c ∈ e.emptied.items) :
    c.IsVacant := by
  cases e with
  | boolean | float | integer | string | symbol | unit => cases h
  | assign | binary | logical | call | field | ifElse | switch | unary =>
    refine .inl ?_
    simpa [emptied, items] using h
  | block body =>
    obtain rfl := List.mem_singleton.1 h
    exact .inr ⟨body.brace, rfl⟩
  | forIn keyword name object body | whileDo keyword condition body =>
    rcases List.mem_pair.1 h with rfl | rfl
    · exact .inl rfl
    · exact .inr ⟨body.brace, rfl⟩

/-- The work list of an expression runs empty, having given off once what a walk meets and the
function bodies there, and what is left of each node holds no statement and no expression but
placeholders. The work list of a typename gives off once all that it is made of. -/
theorem releases_every_node_once :
    (∀ e : Expr,
      (∀ k, ((turn Expr.detached)^[k] [e]).head? = e.release[k]?) ∧
      (turn Expr.detached)^[e.release.length] [e] = [] ∧
      (e.release : Multiset Expr) = ↑((Item.expr e).all.filterMap Item.expr?) +
        ↑(((Item.expr e).all.filterMap Item.function?).map FunctionDecl.bodyExpr) ∧
      ∀ d ∈ e.release, ∀ c ∈ d.emptied.items, c.Every fun i =>
        (∀ x, i = .expr x → x = .vacant) ∧ ∀ s, i ≠ .stmt s) ∧
    ∀ t : Typename,
      (∀ k, ((turn Typename.detached)^[k] [t]).head? = t.release[k]?) ∧
      (turn Typename.detached)^[t.release.length] [t] = [] ∧
      (t.release : Multiset Typename) = t.nodes ∧
      ∀ u ∈ t.release, u.emptied.children = [] := by
  refine ⟨fun e => ⟨fun k => head?_iterate_turn Expr.pendingSize_detached_lt k [e],
      iterate_turn_length Expr.pendingSize_detached_lt [e], ?_, ?_⟩,
    fun t => ⟨fun k => head?_iterate_turn Typename.pendingSize_detached_lt k [t],
      iterate_turn_length Typename.pendingSize_detached_lt [t], ?_, fun _ _ => rfl⟩⟩
  · rw [Multiset.coe_add, Multiset.coe_eq_coe]
    exact e.release_perm_all
  · intro d _ c hc i hi
    exact ((Expr.isVacant_of_mem_items_emptied hc).every i hi).holds_placeholders
  · exact Multiset.coe_eq_coe.2 t.release_perm_nodes

/-- A loop around a method. The body of the method is one of the five nodes that are released. -/
theorem releases_every_node_once_method_in_loop :
    let int : Typename := .basic ⟨"int", .absent⟩
    let name : Expr := .symbol (.synthetic "a")
    let method : FunctionDecl := ⟨.synthetic "f", [], int, ⟨.absent, [], name⟩⟩
    let condition : Expr := .boolean (.synthetic "true") true
    let body : Block := ⟨.absent, [.implDecl int none [method]], .vacant⟩
    let loop : Expr := .whileDo (.synthetic "while") condition body
    method.bodyExpr ∈ loop.release ∧ (turn Expr.detached)^[5] [loop] = [] ∧
      (loop.release : Multiset Expr) = {loop, condition, name, .vacant, method.bodyExpr} ∧
      ∀ c ∈ method.bodyExpr.emptied.items, c.Every fun i =>
        (∀ x, i = .expr x → x = .vacant) ∧ ∀ s, i ≠ .stmt s := by
  intro int name method condition body loop
  have horder : loop.release = [loop, .vacant, method.bodyExpr, name, condition] := by
    simp [Expr.release, releaseAll_cons, loop, body, method, name, condition,
      Expr.detached, Block.detached, Stmt.detached, FunctionDecl.bodyExpr, Expr.vacant]
  have hmem : method.bodyExpr ∈ loop.release := by
    rw [horder]
    exact List.mem_cons_of_mem _ (List.mem_cons_of_mem _ List.mem_cons_self)
  obtain ⟨-, hempty, hnodes, hleft⟩ := releases_every_node_once.1 loop
  refine ⟨hmem, ?_, ?_, hleft _ hmem⟩
  · rwa [horder] at hempty
  · have hwalk : (Item.expr loop).all = [.expr loop, .expr condition, .block body,
        .stmt (.implDecl int none [method]), .typename int, .function method, .typename int,
        .block method.body, .expr name, .expr .vacant] := by
      simp [Item.all_eq, Item.children, Expr.items, Block.items, Stmt.items, FunctionDecl.items,
        loop, body, method, name, condition, int, Expr.vacant, Typename.children]
    rw [hnodes, hwalk]
    rfl

end LangCore
