import Mathlib
import LangCore.Typename.Substitute
import LangCore.Proofs.Lexeme

/-!
# Structure of typenames

The shape of a typename is what is left of it without labels and locations. The
name in a label is cached when a node is built, so a typename that the building
functions made carries the name that is read off its shape.
-/

namespace LangCore

/-- A typename without labels. -/
inductive TypeShape
  | basic (name : String)
  | parametric (constructor : TypeShape) (params : List TypeShape)
  | tuple (elements : List TypeShape)
  | function (result : TypeShape) (args : List TypeShape)
  | reference (permission region : String) (referent : TypeShape)
  | optional (wrapped : TypeShape)

namespace TypeShape

/-- A statement about all shapes, proved for a node from its parts. -/
@[induction_eliminator]
theorem induction {motive : TypeShape → Prop}
    (basic : ∀ name, motive (basic name))
    (parametric : ∀ constructor params, motive constructor → (∀ p ∈ params, motive p) →
      motive (parametric constructor params))
    (tuple : ∀ elements, (∀ e ∈ elements, motive e) → motive (tuple elements))
    (function : ∀ result args, motive result → (∀ a ∈ args, motive a) →
      motive (function result args))
    (reference : ∀ permission region referent, motive referent →
      motive (reference permission region referent))
    (optional : ∀ wrapped, motive wrapped → motive (optional wrapped)) (t : TypeShape) :
    motive t :=
  @TypeShape.rec motive (fun ts => ∀ t ∈ ts, motive t) basic parametric tuple function
    reference optional (fun _ h => absurd h List.not_mem_nil)
    (fun _ _ hhead htail => List.forall_mem_cons.2 ⟨hhead, htail⟩) t

/-- Whether the text of the shape ends in the text of another one. -/
def isOpen : TypeShape → Bool
  | function _ _ | reference _ _ _ => true
  | _ => false

/-- Text in front of a suffix: in parentheses if the suffix would attach to its end. -/
def enclose (t : TypeShape) (text : List Char) : List Char :=
  if t.isOpen then '(' :: text ++ [')'] else text

@[simp] theorem isOpen_parametric (constructor : TypeShape) (params : List TypeShape) :
    (parametric constructor params).isOpen = false := rfl

@[simp] theorem isOpen_tuple (elements : List TypeShape) : (tuple elements).isOpen = false := rfl

@[simp] theorem isOpen_optional (wrapped : TypeShape) : (optional wrapped).isOpen = false := rfl

theorem enclose_closed {t : TypeShape} (h : t.isOpen = false) (text : List Char) :
    t.enclose text = text := by
  rw [enclose, h, if_neg Bool.false_ne_true]

/-- A qualifier of a reference, followed by a blank unless it is empty. -/
def qualifierChars (qualifier : String) : List Char :=
  if qualifier.isEmpty then [] else qualifier.toList ++ [' ']

def commaSeparated (texts : List (List Char)) : List Char :=
  [',', ' '].intercalate texts

mutual

/-- The canonical name. -/
def chars : TypeShape → List Char
  | basic name => name.toList
  | parametric constructor params =>
    constructor.enclose constructor.chars ++ '<' :: commaSeparated (charsAll params) ++ ['>']
  | tuple elements => '(' :: commaSeparated (charsAll elements) ++ [')']
  | function result args =>
    'f' :: 'n' :: '(' :: commaSeparated (charsAll args) ++ ')' :: ' ' :: result.chars
  | reference permission region referent =>
    '&' :: qualifierChars region ++ qualifierChars permission ++ referent.chars
  | optional wrapped => wrapped.enclose wrapped.chars ++ ['?']

def charsAll : List TypeShape → List (List Char)
  | [] => []
  | t :: rest => t.chars :: charsAll rest

end

@[simp] theorem charsAll_eq_map (ts : List TypeShape) : charsAll ts = ts.map chars := by
  induction ts with
  | nil => rfl
  | cons t ts ih => simp [charsAll, ih]

theorem chars_parametric (constructor : TypeShape) (params : List TypeShape) :
    (parametric constructor params).chars = constructor.enclose constructor.chars ++
      '<' :: commaSeparated (params.map chars) ++ ['>'] := by
  simp [chars]

theorem chars_tuple (elements : List TypeShape) :
    (tuple elements).chars = '(' :: commaSeparated (elements.map chars) ++ [')'] := by
  simp [chars]

theorem chars_function (result : TypeShape) (args : List TypeShape) :
    (function result args).chars =
      'f' :: 'n' :: '(' :: commaSeparated (args.map chars) ++ ')' :: ' ' :: result.chars := by
  simp [chars]

def children : TypeShape → List TypeShape
  | basic _ => []
  | parametric constructor params => constructor :: params
  | tuple elements => elements
  | function result args => args ++ [result]
  | reference _ _ referent => [referent]
  | optional wrapped => [wrapped]

theorem induction_children {motive : TypeShape → Prop}
    (node : ∀ t, (∀ c ∈ t.children, motive c) → motive t) (t : TypeShape) : motive t := by
  induction t with
  | basic name => exact node _ fun c hc => absurd hc List.not_mem_nil
  | parametric constructor params ihc ihp => exact node _ (List.forall_mem_cons.2 ⟨ihc, ihp⟩)
  | tuple elements ih => exact node _ ih
  | function result args ihr iha =>
    refine node _ (List.forall_mem_append.2 ⟨iha, List.forall_mem_singleton.2 ihr⟩)
  | reference permission region referent ih => exact node _ (List.forall_mem_singleton.2 ih)
  | optional wrapped ih => exact node _ (List.forall_mem_singleton.2 ih)

mutual

/-- The shape and all parts in it, every node in front of its parts. -/
def nodes : TypeShape → List TypeShape
  | basic name => [basic name]
  | parametric constructor params =>
    parametric constructor params :: (constructor.nodes ++ nodesAll params)
  | tuple elements => tuple elements :: nodesAll elements
  | function result args => function result args :: (nodesAll args ++ result.nodes)
  | reference permission region referent => reference permission region referent :: referent.nodes
  | optional wrapped => optional wrapped :: wrapped.nodes

def nodesAll : List TypeShape → List TypeShape
  | [] => []
  | t :: rest => t.nodes ++ nodesAll rest

end

@[simp] theorem nodesAll_eq_flatMap (ts : List TypeShape) : nodesAll ts = ts.flatMap nodes := by
  induction ts with
  | nil => rfl
  | cons t ts ih => simp [nodesAll, ih]

theorem nodes_eq (t : TypeShape) : t.nodes = t :: t.children.flatMap nodes := by
  cases t <;> simp [nodes, children]

def Every (p : TypeShape → Prop) (t : TypeShape) : Prop :=
  ∀ u ∈ t.nodes, p u

instance (p : TypeShape → Prop) [DecidablePred p] (t : TypeShape) : Decidable (t.Every p) :=
  inferInstanceAs (Decidable (∀ u ∈ t.nodes, p u))

theorem every_iff {p : TypeShape → Prop} {t : TypeShape} :
    t.Every p ↔ p t ∧ ∀ c ∈ t.children, c.Every p := by
  simp only [Every, nodes_eq t, List.forall_mem_cons, List.mem_flatMap]
  refine and_congr_right fun _ => ⟨?_, ?_⟩
  · intro h c hc u hu
    exact h u ⟨c, hc, hu⟩
  · rintro h u ⟨c, hc, hu⟩
    exact h c hc u hu

theorem Every.of_mem_children {p : TypeShape → Prop} {t c : TypeShape} (h : t.Every p)
    (hc : c ∈ t.children) : c.Every p :=
  (every_iff.1 h).2 c hc

/-- The node with every part replaced. -/
def mapChildren (f : TypeShape → TypeShape) : TypeShape → TypeShape
  | basic name => basic name
  | parametric constructor params => parametric (f constructor) (params.map f)
  | tuple elements => tuple (elements.map f)
  | function result args => function (f result) (args.map f)
  | reference permission region referent => reference permission region (f referent)
  | optional wrapped => optional (f wrapped)

@[simp] theorem children_mapChildren (f : TypeShape → TypeShape) (t : TypeShape) :
    (t.mapChildren f).children = t.children.map f := by
  cases t <;> simp [mapChildren, children]

theorem mapChildren_eq_self_iff {f : TypeShape → TypeShape} {t : TypeShape} :
    t.mapChildren f = t ↔ ∀ c ∈ t.children, f c = c := by
  have hmap (ts : List TypeShape) : ts.map f = ts ↔ ∀ c ∈ ts, f c = c := by
    conv_lhs => rw [← List.map_id ts, List.map_map]
    exact List.map_inj_left
  cases t <;> simp [mapChildren, children, hmap, or_imp, forall_and, and_comm]

/-- Names are identifiers, qualifiers identifiers and regions unless they are omitted. -/
def lexicalAt : TypeShape → Bool
  | basic name => isIdentifier name
  | reference permission region _ =>
    (permission.isEmpty || isIdentifier permission) && (region.isEmpty || isRegion region)
  | _ => true

/-- Every lexeme in the shape has the form that source gives it. -/
def Lexical (t : TypeShape) : Prop :=
  t.Every fun u => u.lexicalAt = true

instance (t : TypeShape) : Decidable t.Lexical :=
  inferInstanceAs (Decidable (t.Every _))

theorem lexical_iff {t : TypeShape} :
    t.Lexical ↔ t.lexicalAt = true ∧ ∀ c ∈ t.children, c.Lexical :=
  every_iff

theorem lexical_basic {name : String} (h : isIdentifier name = true) : (basic name).Lexical :=
  lexical_iff.2 ⟨h, fun _ hc => absurd hc List.not_mem_nil⟩

theorem Lexical.of_mem_children {t c : TypeShape} (h : t.Lexical) (hc : c ∈ t.children) :
    c.Lexical :=
  Every.of_mem_children h hc

@[simp] theorem lexicalAt_mapChildren (f : TypeShape → TypeShape) (t : TypeShape) :
    (t.mapChildren f).lexicalAt = t.lexicalAt := by
  cases t <;> rfl

end TypeShape

namespace Typename

mutual

/-- The structure of a typename. -/
def shape : Typename → TypeShape
  | basic label => .basic label.name
  | parametric _ constructor params => .parametric constructor.shape (shapes params)
  | tuple _ elements => .tuple (shapes elements)
  | function _ result args => .function result.shape (shapes args)
  | reference _ permission region referent =>
    .reference permission.lexeme region.lexeme referent.shape
  | optional _ wrapped => .optional wrapped.shape

def shapes : List Typename → List TypeShape
  | [] => []
  | t :: rest => t.shape :: shapes rest

end

@[simp] theorem shapes_eq_map (ts : List Typename) : shapes ts = ts.map shape := by
  induction ts with
  | nil => rfl
  | cons t ts ih => simp [shapes, ih]

/-- A typename that the building functions made. -/
inductive Built : Typename → Prop
  | named {name location t} : named name location = .ok t → Built t
  | parametricOf {constructor params} :
    Built constructor → (∀ p ∈ params, Built p) → Built (parametricOf constructor params)
  | tupleOf {elements paren} : (∀ e ∈ elements, Built e) → Built (tupleOf elements paren)
  | functionOf {result args} :
    Built result → (∀ a ∈ args, Built a) → Built (functionOf result args)
  | referenceTo {permission region referent} :
    Built referent → Built (referenceTo permission region referent)
  | optionalOf {wrapped} : Built wrapped → Built (optionalOf wrapped)

theorem endsOpen_kind (t : Typename) : t.kind.endsOpen = t.shape.isOpen := by
  cases t <;> rfl

theorem toList_suffixOperand {t : Typename} (h : t.name.toList = t.shape.chars) :
    t.suffixOperand.toList = t.shape.enclose t.shape.chars := by
  unfold suffixOperand TypeShape.enclose
  rw [endsOpen_kind]
  split <;> simp [h]

theorem toList_joinNames {ts : List Typename} (h : ∀ t ∈ ts, t.name.toList = t.shape.chars) :
    (joinNames ts).toList = TypeShape.commaSeparated ((ts.map shape).map TypeShape.chars) := by
  simp only [joinNames, String.toList_intercalate, TypeShape.commaSeparated, List.map_map]
  congr 1
  exact List.map_congr_left fun t ht => h t ht

theorem toList_qualifierText (qualifier : Token) :
    (qualifierText qualifier).toList = TypeShape.qualifierChars qualifier.lexeme := by
  unfold qualifierText TypeShape.qualifierChars Token.isEmpty
  split <;> simp

@[simp] theorem shape_parametricOf (constructor : Typename) (params : List Typename) :
    (constructor.parametricOf params).shape = .parametric constructor.shape (params.map shape) := by
  simp [parametricOf, shape]

@[simp] theorem shape_tupleOf (elements : List Typename) (paren : Token) :
    (tupleOf elements paren).shape = .tuple (elements.map shape) := by
  simp [tupleOf, shape]

@[simp] theorem shape_functionOf (result : Typename) (args : List Typename) :
    (result.functionOf args).shape = .function result.shape (args.map shape) := by
  simp [functionOf, shape]

@[simp] theorem shape_referenceTo (permission region : Token) (referent : Typename) :
    (referenceTo permission region referent).shape =
      .reference permission.lexeme region.lexeme referent.shape := rfl

@[simp] theorem shape_optionalOf (wrapped : Typename) :
    wrapped.optionalOf.shape = .optional wrapped.shape := rfl

theorem eq_basic_of_named {name : String} {location : Token} {t : Typename}
    (h : named name location = .ok t) : t = basic ⟨name, location⟩ := by
  unfold named at h
  split at h
  · cases h
  · cases h
    rfl

theorem Built.toList_name {t : Typename} (h : t.Built) : t.name.toList = t.shape.chars := by
  induction h with
  | @named name location t h =>
    obtain rfl := eq_basic_of_named h
    rfl
  | parametricOf _ _ ihc ihp =>
    simp [toList_suffixOperand ihc, toList_joinNames ihp, TypeShape.chars]
  | tupleOf _ ih => simp [toList_joinNames ih, TypeShape.chars]
  | functionOf _ _ ihr iha => simp [toList_joinNames iha, ihr, TypeShape.chars]
  | referenceTo _ ih => simp [toList_qualifierText, ih, TypeShape.chars]
  | optionalOf _ ih => simp [toList_suffixOperand ih, TypeShape.chars]

theorem Built.ofAll_substitute {ts : List Typename} {param : String} {replacement : Typename}
    (h : ∀ t ∈ ts, (t.substitute param replacement).Built) :
    ∀ t ∈ substituteAll ts param replacement, t.Built := by
  rw [substituteAll_eq_map]
  exact List.forall_mem_map.2 h

/-- Substitution leaves no label with a name of the typename from before. -/
theorem Built.substitute {t : Typename} (h : t.Built) {replacement : Typename}
    (hreplacement : replacement.Built) (param : String) :
    (t.substitute param replacement).Built := by
  induction h with
  | @named name location t h =>
    have hbuilt := Built.named h
    obtain rfl := eq_basic_of_named h
    rw [Typename.substitute]
    split
    · exact hreplacement
    · exact hbuilt
  | parametricOf _ _ ihc ihp =>
    rw [Typename.parametricOf, Typename.substitute]
    exact .parametricOf ihc (ofAll_substitute ihp)
  | tupleOf _ ih =>
    rw [Typename.tupleOf, Typename.substitute]
    exact .tupleOf (ofAll_substitute ih)
  | functionOf _ _ ihr iha =>
    rw [Typename.functionOf, Typename.substitute]
    exact .functionOf ihr (ofAll_substitute iha)
  | referenceTo _ ih =>
    rw [Typename.referenceTo, Typename.substitute]
    exact .referenceTo ih
  | optionalOf _ ih =>
    rw [Typename.optionalOf, Typename.substitute]
    exact .optionalOf ih

end Typename
end LangCore
