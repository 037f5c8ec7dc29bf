import Mathlib
import LangCore.Proofs.Walk.Every

/-!
# Places in a tree

A slot is the way from a node to one part of it, and a place is the way from
the root of a tree to any node in it. Nodes may be equal, but no two share a
place, and the slots of a node have an order: of their stages, and within a
stage of their positions. Occurrences list the nodes of a tree in the order of
their places, with the nodes that each lies below.
-/

namespace LangCore

inductive Slot
  | argument (position : Nat)
  | ascription
  | body
  | callee
  | caseBody (position : Nat)
  | casePattern (position : Nat)
  | casePredicate (position : Nat)
  | condition
  | constructor
  | decl
  | element (position : Nat)
  | elseBody
  | expr
  | field (position : Nat)
  | implementer
  | initializer
  | interface
  | left
  | method (position : Nat)
  | object
  | operand
  | param (position : Nat)
  | referent
  | result
  | right
  | stmt (position : Nat)
  | target
  | thenBody
  | value
  | variant (position : Nat)
  | wrapped
  deriving DecidableEq

namespace Slot

/-- How many stages of the walk of a node are over when the slot is read. -/
def stage : Slot → Nat
  | ascription | callee | condition | constructor | decl | element _ | expr | field _ | interface
  | left | object | operand | referent | target | variant _ | wrapped => 0
  | argument _ | implementer | initializer | param _ | right | stmt _ | thenBody | value => 1
  | caseBody _ | casePattern _ | casePredicate _ | elseBody | method _ | result => 2
  | body => 3

/-- Where the slot stands in its stage. The three parts of a case follow each other. -/
def position : Slot → Nat
  | argument i | element i | field i | method i | param i | stmt i | variant i => i
  | casePattern i => 3 * i
  | casePredicate i => 3 * i + 1
  | caseBody i => 3 * i + 2
  | _ => 0

/-- The order in which the slots of a node are read. -/
def Before (a b : Slot) : Prop :=
  a.stage < b.stage ∨ a.stage = b.stage ∧ a.position < b.position

theorem not_before_self (a : Slot) : ¬ a.Before a := by
  unfold Before
  omega

end Slot

namespace Item

/-- `Part item slot c` says that `item` holds `c` in `slot`. -/
inductive Part : Item → Slot → Item → Prop
  | variant {name variants i entry} : variants[i]? = some entry →
    Part (stmt (.enumDecl name variants)) (.variant i) (typename entry.typename)
  | expr {e} : Part (stmt (.expression e)) .expr (expr e)
  | decl {f} : Part (stmt (.functionDecl f)) .decl (function f)
  | interface {t interface methods} :
    Part (stmt (.implDecl t (some interface) methods)) .interface (typename interface)
  | implementer {t interface? methods} :
    Part (stmt (.implDecl t interface? methods)) .implementer (typename t)
  | implMethod {t interface? methods i f} : methods[i]? = some f →
    Part (stmt (.implDecl t interface? methods)) (.method i) (function f)
  | returnValue {keyword e} : Part (stmt (.returnValue keyword e)) .value (expr e)
  | structField {name fields i entry} : fields[i]? = some entry →
    Part (stmt (.structDecl name fields)) (.field i) (typename entry.typename)
  | traitMethod {name methods i f} : methods[i]? = some f →
    Part (stmt (.traitDecl name methods)) (.method i) (function f)
  | ascription {keyword name t initializer} :
    Part (stmt (.binding keyword name (some t) initializer)) .ascription (typename t)
  | initializer {keyword name typename? e} :
    Part (stmt (.binding keyword name typename? e)) .initializer (expr e)
  | assignTarget {target oper value} :
    Part (expr (.assign target oper value)) .target (expr target)
  | assignValue {target oper value} :
    Part (expr (.assign target oper value)) .value (expr value)
  | binaryLeft {left oper right} : Part (expr (.binary left oper right)) .left (expr left)
  | binaryRight {left oper right} : Part (expr (.binary left oper right)) .right (expr right)
  | logicalLeft {left oper right} : Part (expr (.logical left oper right)) .left (expr left)
  | logicalRight {left oper right} : Part (expr (.logical left oper right)) .right (expr right)
  | blockBody {body} : Part (expr (.block body)) .body (block body)
  | callee {callee paren arguments} :
    Part (expr (.call callee paren arguments)) .callee (expr callee)
  | callArgument {callee paren arguments i e} : arguments[i]? = some e →
    Part (expr (.call callee paren arguments)) (.argument i) (expr e)
  | fieldObject {object name} : Part (expr (.field object name)) .object (expr object)
  | forObject {keyword name object body} :
    Part (expr (.forIn keyword name object body)) .object (expr object)
  | forBody {keyword name object body} :
    Part (expr (.forIn keyword name object body)) .body (block body)
  | ifCondition {keyword condition thenBody elseBody} :
    Part (expr (.ifElse keyword condition thenBody elseBody)) .condition (expr condition)
  | thenBody {keyword condition thenBody elseBody} :
    Part (expr (.ifElse keyword condition thenBody elseBody)) .thenBody (expr thenBody)
  | elseBody {keyword condition thenBody elseBody} :
    Part (expr (.ifElse keyword condition thenBody elseBody)) .elseBody (expr elseBody)
  | switchValue {keyword value cases} :
    Part (expr (.switch keyword value cases)) .value (expr value)
  | casePattern {keyword value cases i c} : cases[i]? = some c →
    Part (expr (.switch keyword value cases)) (.casePattern i) (pattern c.pattern)
  | casePredicate {keyword value cases i c} : cases[i]? = some c →
    Part (expr (.switch keyword value cases)) (.casePredicate i) (expr c.predicate)
  | caseBody {keyword value cases i c} : cases[i]? = some c →
    Part (expr (.switch keyword value cases)) (.caseBody i) (expr c.body)
  | operand {oper operand} : Part (expr (.unary oper operand)) .operand (expr operand)
  | whileCondition {keyword condition body} :
    Part (expr (.whileDo keyword condition body)) .condition (expr condition)
  | whileBody {keyword condition body} :
    Part (expr (.whileDo keyword condition body)) .body (block body)
  | patternValue {e} : Part (pattern (.value e)) .value (expr e)
  | blockStmt {b : Block} {i s} : b.stmts[i]? = some s → Part (block b) (.stmt i) (stmt s)
  | blockResult {b} : Part (block b) .result (expr b.result)
  | functionParam {f : FunctionDecl} {i entry} : f.params[i]? = some entry →
    Part (function f) (.param i) (typename entry.typename)
  | functionResult {f} : Part (function f) .result (typename f.result)
  | functionBody {f} : Part (function f) .body (block f.body)
  | constructor {label constructor params} :
    Part (typename (.parametric label constructor params)) .constructor (typename constructor)
  | param {label constructor params i t} : params[i]? = some t →
    Part (typename (.parametric label constructor params)) (.param i) (typename t)
  | element {label elements i t} : elements[i]? = some t →
    Part (typename (.tuple label elements)) (.element i) (typename t)
  | argument {label result args i t} : args[i]? = some t →
    Part (typename (.function label result args)) (.argument i) (typename t)
  | result {label result args} :
    Part (typename (.function label result args)) .result (typename result)
  | referent {label permission region referent} :
    Part (typename (.reference label permission region referent)) .referent (typename referent)
  | wrapped {label wrapped} : Part (typename (.optional label wrapped)) .wrapped (typename wrapped)

/-- Parts that stand in the slots of one kind. -/
def numbered {α : Type} (slot : Nat → Slot) (f : α → Item) (xs : List α) : List (Slot × Item) :=
  xs.zipIdx.map fun entry => (slot entry.2, f entry.1)

def numberedCases (cases : List SwitchCase) : List (Slot × Item) :=
  cases.zipIdx.flatMap fun entry =>
    [(.casePattern entry.2, pattern entry.1.pattern),
      (.casePredicate entry.2, expr entry.1.predicate), (.caseBody entry.2, expr entry.1.body)]

def stmtParts : Stmt → List (Slot × Item)
  | .breakLoop _ | .continueLoop _ => []
  | .enumDecl _ variants => numbered .variant TypedName.item variants
  | .expression e => [(.expr, expr e)]
  | .functionDecl f => [(.decl, function f)]
  | .implDecl t interface? methods =>
    interface?.toList.map (fun i => (.interface, typename i)) ++
      (.implementer, typename t) :: numbered .method function methods
  | .returnValue _ e => [(.value, expr e)]
  | .structDecl _ fields => numbered .field TypedName.item fields
  | .traitDecl _ methods => numbered .method function methods
  | .binding _ _ typename? e =>
    typename?.toList.map (fun t => (.ascription, typename t)) ++ [(.initializer, expr e)]

def exprParts : Expr → List (Slot × Item)
  | .boolean _ _ | .float _ _ | .integer _ _ | .string _ _ | .symbol _ | .unit _ => []
  | .assign target _ value => [(.target, expr target), (.value, expr value)]
  | .binary left _ right | .logical left _ right => [(.left, expr left), (.right, expr right)]
  | .block body => [(.body, block body)]
  | .call callee _ arguments => (.callee, expr callee) :: numbered .argument expr arguments
  | .field object _ => [(.object, expr object)]
  | .forIn _ _ object body => [(.object, expr object), (.body, block body)]
  | .ifElse _ condition thenBody elseBody =>
    [(.condition, expr condition), (.thenBody, expr thenBody), (.elseBody, expr elseBody)]
  | .switch _ value cases => (.value, expr value) :: numberedCases cases
  | .unary _ operand => [(.operand, expr operand)]
  | .whileDo _ condition body => [(.condition, expr condition), (.body, block body)]

def typenameParts : Typename → List (Slot × Item)
  | .basic _ => []
  | .parametric _ constructor params =>
    (.constructor, typename constructor) :: numbered .param typename params
  | .tuple _ elements => numbered .element typename elements
  | .function _ result args => numbered .argument typename args ++ [(.result, typename result)]
  | .reference _ _ _ referent => [(.referent, typename referent)]
  | .optional _ wrapped => [(.wrapped, typename wrapped)]

/-- The parts of a node with their slots. -/
def parts : Item → List (Slot × Item)
  | stmt s => stmtParts s
  | expr e => exprParts e
  | pattern (.value e) => [(.value, expr e)]
  | pattern (.wildcard _) => []
  | block b => numbered .stmt stmt b.stmts ++ [(.result, expr b.result)]
  | function f =>
    numbered .param TypedName.item f.params ++ [(.result, typename f.result), (.body, block f.body)]
  | typename t => typenameParts t

section numbered

variable {α : Type} {slot : Nat → Slot} {f : α → Item} {xs : List α}

theorem mem_numbered {part : Slot × Item} :
    part ∈ numbered slot f xs ↔ ∃ i x, xs[i]? = some x ∧ part = (slot i, f x) := by
  simp only [numbered, List.mem_map, Prod.exists, List.mem_zipIdx_iff_getElem?]
  constructor
  · rintro ⟨x, i, hx, rfl⟩
    exact ⟨i, x, hx, rfl⟩
  · rintro ⟨i, x, hx, rfl⟩
    exact ⟨x, i, hx, rfl⟩

@[simp] theorem map_snd_numbered : (numbered slot f xs).map Prod.snd = xs.map f := by
  calc (numbered slot f xs).map Prod.snd
      = (xs.zipIdx.map Prod.fst).map f := by simp only [numbered, List.map_map]; rfl
    _ = xs.map f := by rw [List.zipIdx_map_fst]

end numbered

theorem mem_numberedCases {cases : List SwitchCase} {part : Slot × Item} :
    part ∈ numberedCases cases ↔ ∃ i c, cases[i]? = some c ∧
      (part = (.casePattern i, pattern c.pattern) ∨ part = (.casePredicate i, expr c.predicate) ∨
        part = (.caseBody i, expr c.body)) := by
  simp only [numberedCases, List.mem_flatMap, Prod.exists, List.mem_zipIdx_iff_getElem?,
    List.mem_cons, List.not_mem_nil, or_false]
  exact exists_comm

@[simp] theorem map_snd_numberedCases (cases : List SwitchCase) :
    (numberedCases cases).map Prod.snd = cases.flatMap SwitchCase.items := by
  calc (numberedCases cases).map Prod.snd
      = cases.zipIdx.flatMap fun entry => entry.1.items := List.map_flatMap
    _ = (cases.zipIdx.map Prod.fst).flatMap SwitchCase.items := by rw [List.flatMap_map]
    _ = cases.flatMap SwitchCase.items := by rw [List.zipIdx_map_fst]

theorem map_snd_parts (item : Item) : item.parts.map Prod.snd = item.children := by
  cases item with
  | stmt s => cases s <;> simp [parts, stmtParts, children, Stmt.items, Function.comp_def]
  | expr e => cases e <;> simp [parts, exprParts, children, Expr.items]
  | pattern p => cases p <;> simp [parts, children, Pattern.items]
  | block b => simp [parts, children, Block.items]
  | function f => simp [parts, children, FunctionDecl.items]
  | typename t => cases t <;> simp [parts, typenameParts, children, Typename.children]

theorem part_of_mem_stmtParts {s : Stmt} {slot : Slot} {c : Item} (h : (slot, c) ∈ stmtParts s) :
    Part (stmt s) slot c := by
  cases s with
  | breakLoop | continueLoop => exact absurd h List.not_mem_nil
  | enumDecl name variants =>
    obtain ⟨i, entry, hentry, ⟨⟩⟩ := mem_numbered.1 h
    exact .variant hentry
  | expression e =>
    obtain ⟨⟩ := List.mem_singleton.1 h
    exact .expr
  | functionDecl f =>
    obtain ⟨⟩ := List.mem_singleton.1 h
    exact .decl
  | implDecl t interface? methods =>
    rcases List.mem_append.1 h with h | h
    · obtain ⟨interface, hinterface, ⟨⟩⟩ := List.mem_map.1 h
      obtain rfl := Option.mem_toList.1 hinterface
      exact .interface
    · rcases List.mem_cons.1 h with ⟨⟨⟩⟩ | h
      · exact .implementer
      · obtain ⟨i, f, hf, ⟨⟩⟩ := mem_numbered.1 h
        exact .implMethod hf
  | returnValue keyword e =>
    obtain ⟨⟩ := List.mem_singleton.1 h
    exact .returnValue
  | structDecl name fields =>
    obtain ⟨i, entry, hentry, ⟨⟩⟩ := mem_numbered.1 h
    exact .structField hentry
  | traitDecl name methods =>
    obtain ⟨i, f, hf, ⟨⟩⟩ := mem_numbered.1 h
    exact .traitMethod hf
  | binding keyword name typename? e =>
    rcases List.mem_append.1 h with h | h
    · obtain ⟨t, ht, ⟨⟩⟩ := List.mem_map.1 h
      obtain rfl := Option.mem_toList.1 ht
      exact .ascription
    · obtain ⟨⟩ := List.mem_singleton.1 h
      exact .initializer

theorem part_of_mem_exprParts {e : Expr} {slot : Slot} {c : Item} (h : (slot, c) ∈ exprParts e) :
    Part (expr e) slot c := by
  cases e with
  | boolean | float | integer | string | symbol | unit => exact absurd h List.not_mem_nil
  | call callee paren arguments =>
    rcases List.mem_cons.1 h with ⟨⟨⟩⟩ | h
    · exact .callee
    · obtain ⟨i, argument, hargument, ⟨⟩⟩ := mem_numbered.1 h
      exact .callArgument hargument
  | switch keyword value cases =>
    rcases List.mem_cons.1 h with ⟨⟨⟩⟩ | h
    · exact .switchValue
    · obtain ⟨i, c, hc, ⟨⟨⟩⟩ | ⟨⟨⟩⟩ | ⟨⟨⟩⟩⟩ := mem_numberedCases.1 h
      · exact .casePattern hc
      · exact .casePredicate hc
      · exact .caseBody hc
  | block | field | unary =>
    obtain ⟨⟩ := List.mem_singleton.1 h
    constructor
  | assign | binary | logical | forIn | whileDo =>
    simp only [exprParts, List.mem_cons, List.not_mem_nil, or_false] at h
    rcases h with ⟨⟨⟩⟩ | ⟨⟨⟩⟩ <;> constructor
  | ifElse =>
    simp only [exprParts, List.mem_cons, List.not_mem_nil, or_false] at h
    rcases h with ⟨⟨⟩⟩ | ⟨⟨⟩⟩ | ⟨⟨⟩⟩ <;> constructor

theorem part_of_mem_typenameParts {t : Typename} {slot : Slot} {c : Item}
    (h : (slot, c) ∈ typenameParts t) : Part (typename t) slot c := by
  cases t with
  | basic label => exact absurd h List.not_mem_nil
  | parametric label constructor params =>
    rcases List.mem_cons.1 h with ⟨⟨⟩⟩ | h
    · exact .constructor
    · obtain ⟨i, p, hp, ⟨⟩⟩ := mem_numbered.1 h
      exact .param hp
  | tuple label elements =>
    obtain ⟨i, e, he, ⟨⟩⟩ := mem_numbered.1 h
    exact .element he
  | function label result args =>
    rcases List.mem_append.1 h with h | h
    · obtain ⟨i, a, ha, ⟨⟩⟩ := mem_numbered.1 h
      exact .argument ha
    · obtain ⟨⟩ := List.mem_singleton.1 h
      exact .result
  | reference | optional =>
    obtain ⟨⟩ := List.mem_singleton.1 h
    constructor

/-- All parts of a node are listed, and nothing else. -/
theorem mem_parts_iff {item c : Item} {slot : Slot} :
    (slot, c) ∈ item.parts ↔ Part item slot c := by
  constructor
  · intro h
    cases item with
    | stmt s => exact part_of_mem_stmtParts h
    | expr e => exact part_of_mem_exprParts h
    | pattern p =>
      cases p with
      | value e =>
        obtain ⟨⟩ := List.mem_singleton.1 h
        exact .patternValue
      | wildcard token => exact absurd h List.not_mem_nil
    | block b =>
      rcases List.mem_append.1 h with h | h
      · obtain ⟨i, s, hs, ⟨⟩⟩ := mem_numbered.1 h
        exact .blockStmt hs
      · obtain ⟨⟩ := List.mem_singleton.1 h
        exact .blockResult
    | function f =>
      rcases List.mem_append.1 h with h | h
      · obtain ⟨i, entry, hentry, ⟨⟩⟩ := mem_numbered.1 h
        exact .functionParam hentry
      · simp only [List.mem_cons, List.not_mem_nil, or_false] at h
        rcases h with ⟨⟨⟩⟩ | ⟨⟨⟩⟩
        · exact .functionResult
        · exact .functionBody
    | typename t => exact part_of_mem_typenameParts h
  · intro h
    cases h <;> simp_all [parts, stmtParts, exprParts, typenameParts, mem_numbered,
      mem_numberedCases, TypedName.item]

/-- The slots of earlier parts come before those of later ones. -/
def Ordered (parts : List (Slot × Item)) : Prop :=
  parts.Pairwise fun a b => a.1.Before b.1

@[simp] theorem ordered_nil : Ordered [] := List.Pairwise.nil

@[simp] theorem ordered_cons {part : Slot × Item} {parts : List (Slot × Item)} :
    Ordered (part :: parts) ↔ (∀ b ∈ parts, part.1.Before b.1) ∧ Ordered parts :=
  List.pairwise_cons

@[simp] theorem ordered_append {xs ys : List (Slot × Item)} :
    Ordered (xs ++ ys) ↔
      Ordered xs ∧ Ordered ys ∧ ∀ a ∈ xs, ∀ b ∈ ys, a.1.Before b.1 :=
  List.pairwise_append

theorem pairwise_zipIdx {α : Type} (xs : List α) : xs.zipIdx.Pairwise fun a b => a.2 < b.2 := by
  rw [← List.pairwise_map (f := Prod.snd), List.zipIdx_map_snd]
  exact List.pairwise_lt_range'

section numbered

variable {α : Type} {f : α → Item} {xs : List α} (slot : Nat → Slot)
  (hslot : ∀ i j, i < j → (slot i).Before (slot j))

include hslot

theorem ordered_numbered : Ordered (numbered slot f xs) := by
  rw [Ordered, numbered, List.pairwise_map]
  exact (pairwise_zipIdx xs).imp fun {a b} hab => hslot a.2 b.2 hab

theorem ordered_cons_numbered {first : Slot × Item} (h : ∀ i, first.1.Before (slot i)) :
    Ordered (first :: numbered slot f xs) := by
  refine ordered_cons.2 ⟨?_, ordered_numbered slot hslot⟩
  intro part hpart
  obtain ⟨i, x, -, rfl⟩ := mem_numbered.1 hpart
  exact h i

theorem ordered_numbered_append {rest : List (Slot × Item)} (hrest : Ordered rest)
    (h : ∀ i, ∀ b ∈ rest, (slot i).Before b.1) : Ordered (numbered slot f xs ++ rest) := by
  refine ordered_append.2 ⟨ordered_numbered slot hslot, hrest, ?_⟩
  intro part hpart
  obtain ⟨i, x, -, rfl⟩ := mem_numbered.1 hpart
  exact h i

end numbered

theorem ordered_numberedCases (cases : List SwitchCase) : Ordered (numberedCases cases) := by
  rw [Ordered, numberedCases, List.pairwise_flatMap]
  constructor
  · intro entry _
    simp [Slot.Before, Slot.stage, Slot.position]
  · refine (pairwise_zipIdx cases).imp fun {a b} hab => ?_
    intro x hx y hy
    simp only [List.mem_cons, List.not_mem_nil, or_false] at hx hy
    have hlast : 3 * a.2 + 2 < 3 * b.2 := by omega
    rcases hx with rfl | rfl | rfl <;> rcases hy with rfl | rfl | rfl <;>
      exact .inr ⟨rfl, by simp only [Slot.position]; omega⟩

theorem ordered_stmtParts (s : Stmt) : Ordered (stmtParts s) := by
  cases s with
  | breakLoop | continueLoop => exact ordered_nil
  | enumDecl => exact ordered_numbered .variant fun i j h => .inr ⟨rfl, h⟩
  | structDecl => exact ordered_numbered .field fun i j h => .inr ⟨rfl, h⟩
  | traitDecl => exact ordered_numbered .method fun i j h => .inr ⟨rfl, h⟩
  | expression | functionDecl | returnValue => simp [stmtParts]
  | implDecl t interface? methods =>
    have himplementer : Ordered ((.implementer, typename t) :: numbered .method function methods) :=
      ordered_cons_numbered .method (fun i j h => .inr ⟨rfl, h⟩) fun i => .inl Nat.one_lt_two
    cases interface? with
    | none => exact himplementer
    | some interface =>
      refine ordered_cons.2 ⟨?_, himplementer⟩
      refine List.forall_mem_cons.2 ⟨.inl Nat.zero_lt_one, ?_⟩
      intro part hpart
      obtain ⟨i, f, -, rfl⟩ := mem_numbered.1 hpart
      exact .inl Nat.zero_lt_two
  | binding keyword name typename? e =>
    cases typename? <;> simp [stmtParts, Slot.Before, Slot.stage]

theorem ordered_exprParts (e : Expr) : Ordered (exprParts e) := by
  cases e with
  | call =>
    exact ordered_cons_numbered .argument (fun i j h => .inr ⟨rfl, h⟩) fun i => .inl Nat.zero_lt_one
  | switch keyword value cases =>
    refine ordered_cons.2 ⟨?_, ordered_numberedCases cases⟩
    intro part hpart
    obtain ⟨i, c, -, rfl | rfl | rfl⟩ := mem_numberedCases.1 hpart
    all_goals exact .inl Nat.one_lt_two
  | _ => simp [exprParts, Slot.Before, Slot.stage]

theorem ordered_typenameParts (t : Typename) : Ordered (typenameParts t) := by
  cases t with
  | basic => exact ordered_nil
  | parametric =>
    exact ordered_cons_numbered .param (fun i j h => .inr ⟨rfl, h⟩) fun i => .inl Nat.zero_lt_one
  | tuple => exact ordered_numbered .element fun i j h => .inr ⟨rfl, h⟩
  | function =>
    refine ordered_numbered_append .argument (fun i j h => .inr ⟨rfl, h⟩) (by simp) ?_
    exact fun i => List.forall_mem_singleton.2 (.inl Nat.one_lt_two)
  | reference | optional => simp [typenameParts]

/-- The parts of a node are listed in the order of their slots. -/
theorem ordered_parts (item : Item) : Ordered item.parts := by
  cases item with
  | stmt s => exact ordered_stmtParts s
  | expr e => exact ordered_exprParts e
  | pattern p => cases p <;> simp [parts]
  | block b =>
    refine ordered_numbered_append .stmt (fun i j h => .inr ⟨rfl, h⟩) (by simp) ?_
    exact fun i => List.forall_mem_singleton.2 (.inl Nat.one_lt_two)
  | function f =>
    have hrest : Ordered [(.result, typename f.result), (.body, block f.body)] := by
      simp [Slot.Before, Slot.stage]
    refine ordered_numbered_append .param (fun i j h => .inr ⟨rfl, h⟩) hrest fun i => ?_
    simp [Slot.Before, Slot.stage]
  | typename t => exact ordered_typenameParts t

end Item
end LangCore
