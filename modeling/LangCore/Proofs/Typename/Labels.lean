import Mathlib
import LangCore.Proofs.Typename.Names
import LangCore.Proofs.Typename.Nodes

/-!
# Labels of typenames

A label holds what could be computed from the structure below it: the name, and
the token that the typename is reported at. Building functions compute it from
the labels of the parts, copies take it over and substitution computes it anew
from the first replaced node upwards. An outline follows a typename through all
of this without its labels: it keeps the names and tokens that were given, and
what it says of a label is what the label holds.
-/

namespace LangCore

/-- What a typename is made of: the names and tokens that were given for it, and no labels. -/
inductive Outline
  | basic (name : String) (token : Token)
  | parametric (constructor : Outline) (params : List Outline)
  | tuple (paren : Token) (elements : List Outline)
  | function (result : Outline) (args : List Outline)
  | reference (permission region : Token) (referent : Outline)
  | optional (wrapped : Outline)

namespace Outline

@[induction_eliminator]
theorem induction {motive : Outline → Prop}
    (basic : ∀ name token, motive (basic name token))
    (parametric : ∀ constructor params, motive constructor → (∀ p ∈ params, motive p) →
      motive (parametric constructor params))
    (tuple : ∀ paren elements, (∀ e ∈ elements, motive e) → motive (tuple paren elements))
    (function : ∀ result args, motive result → (∀ a ∈ args, motive a) →
      motive (function result args))
    (reference : ∀ permission region referent, motive referent →
      motive (reference permission region referent))
    (optional : ∀ wrapped, motive wrapped → motive (optional wrapped)) (o : Outline) :
    motive o :=
  @Outline.rec motive (fun os => ∀ o ∈ os, motive o) basic parametric tuple function
    reference optional (fun _ h => absurd h List.not_mem_nil)
    (fun _ _ hhead htail => List.forall_mem_cons.2 ⟨hhead, htail⟩) o

mutual

/-- The outline and all parts in it, every node in front of its parts. -/
def nodes : Outline → List Outline
  | basic name token => [basic name token]
  | parametric constructor params =>
    parametric constructor params :: (constructor.nodes ++ nodesAll params)
  | tuple paren elements => tuple paren elements :: nodesAll elements
  | function result args => function result args :: (nodesAll args ++ result.nodes)
  | reference permission region referent => reference permission region referent :: referent.nodes
  | optional wrapped => optional wrapped :: wrapped.nodes

def nodesAll : List Outline → List Outline
  | [] => []
  | o :: rest => o.nodes ++ nodesAll rest

end

/-- Where a typename is reported: at its own token or parenthesis, at the first qualifier that is
not omitted, or where its leading part is, which is the result of a function. -/
def place : Outline → Token
  | basic _ token => token
  | parametric constructor _ => constructor.place
  | tuple paren _ => paren
  | function result _ => result.place
  | reference permission region referent =>
    if !permission.isEmpty then permission
    else if !region.isEmpty then region
    else referent.place
  | optional wrapped => wrapped.place

mutual

def shape : Outline → TypeShape
  | basic name _ => .basic name
  | parametric constructor params => .parametric constructor.shape (shapes params)
  | tuple _ elements => .tuple (shapes elements)
  | function result args => .function result.shape (shapes args)
  | reference permission region referent =>
    .reference permission.lexeme region.lexeme referent.shape
  | optional wrapped => .optional wrapped.shape

def shapes : List Outline → List TypeShape
  | [] => []
  | o :: rest => o.shape :: shapes rest

end

mutual

/-- The outline with `replacement` for every basic one named `param`, and with every other token
where it was. -/
def substitute (o : Outline) (param : String) (replacement : Outline) : Outline :=
  match o with
  | basic name token => if name = param then replacement else basic name token
  | parametric constructor params =>
    parametric (constructor.substitute param replacement) (substituteAll params param replacement)
  | tuple paren elements => tuple paren (substituteAll elements param replacement)
  | function result args =>
    function (result.substitute param replacement) (substituteAll args param replacement)
  | reference permission region referent =>
    reference permission region (referent.substitute param replacement)
  | optional wrapped => optional (wrapped.substitute param replacement)

def substituteAll (os : List Outline) (param : String) (replacement : Outline) : List Outline :=
  match os with
  | [] => []
  | o :: rest => o.substitute param replacement :: substituteAll rest param replacement

end

/-- The name that the structure spells and the place that it gives. -/
def label (o : Outline) : Label := ⟨String.ofList o.shape.chars, o.place⟩

mutual

/-- The typename in which every node carries the label that is computed from its own outline. -/
def typename : Outline → Typename
  | basic name token => .basic (basic name token).label
  | parametric constructor params =>
    .parametric (parametric constructor params).label constructor.typename (typenames params)
  | tuple paren elements => .tuple (tuple paren elements).label (typenames elements)
  | function result args =>
    .function (function result args).label result.typename (typenames args)
  | reference permission region referent =>
    .reference (reference permission region referent).label permission region referent.typename
  | optional wrapped => .optional (optional wrapped).label wrapped.typename

def typenames : List Outline → List Typename
  | [] => []
  | o :: rest => o.typename :: typenames rest

end

@[simp] theorem shapes_eq_map (os : List Outline) : shapes os = os.map shape := by
  induction os with
  | nil => rfl
  | cons o os ih => simp [shapes, ih]

@[simp] theorem substituteAll_eq_map (os : List Outline) (param : String)
    (replacement : Outline) :
    substituteAll os param replacement = os.map (substitute · param replacement) := by
  induction os with
  | nil => rfl
  | cons o os ih => simp [substituteAll, ih]

@[simp] theorem typenames_eq_map (os : List Outline) : typenames os = os.map typename := by
  induction os with
  | nil => rfl
  | cons o os ih => simp [typenames, ih]

@[simp] theorem nodesAll_eq_flatMap (os : List Outline) : nodesAll os = os.flatMap nodes := by
  induction os with
  | nil => rfl
  | cons o os ih => simp [nodesAll, ih]

@[simp] theorem label_typename (o : Outline) : o.typename.label = o.label := by
  cases o <;> rw [typename] <;> rfl

@[simp] theorem location_typename (o : Outline) : o.typename.location = o.place := by
  rw [Typename.location, label_typename, label]

@[simp] theorem shape_typename (o : Outline) : o.typename.shape = o.shape := by
  induction o with
  | basic name token => simp [typename, Typename.shape, shape, label, TypeShape.chars]
  | parametric constructor params ihc ihp =>
    simpa [typename, Typename.shape, shape, ihc] using ihp
  | tuple paren elements ih => simpa [typename, Typename.shape, shape] using ih
  | function result args ihr iha => simpa [typename, Typename.shape, shape, ihr] using iha
  | reference permission region referent ih => simp [typename, Typename.shape, shape, ih]
  | optional wrapped ih => simp [typename, Typename.shape, shape, ih]

theorem nodes_typename (o : Outline) : o.typename.nodes = o.nodes.map typename := by
  have hparts {os : List Outline} (h : ∀ o ∈ os, o.typename.nodes = o.nodes.map typename) :
      (os.map typename).flatMap Typename.nodes = (os.flatMap nodes).map typename := by
    rw [List.flatMap_map, List.map_flatMap]
    exact List.flatMap_congr h
  induction o with
  | basic name token =>
    rw [Typename.nodes_eq]
    rfl
  | parametric constructor params ihc ihp =>
    rw [Typename.nodes_eq, nodes, List.map_cons, List.map_append, nodesAll_eq_flatMap,
      ← hparts ihp, ← ihc, typename, typenames_eq_map]
    rfl
  | tuple paren elements ih =>
    rw [Typename.nodes_eq, nodes, List.map_cons, nodesAll_eq_flatMap, ← hparts ih, typename,
      typenames_eq_map]
    rfl
  | function result args ihr iha =>
    rw [Typename.nodes_eq, nodes, List.map_cons, List.map_append, nodesAll_eq_flatMap,
      ← hparts iha, ← ihr, typename, typenames_eq_map]
    simp [Typename.children]
  | reference permission region referent ih =>
    rw [Typename.nodes_eq, nodes, List.map_cons, ← ih, typename]
    simp [Typename.children]
  | optional wrapped ih =>
    rw [Typename.nodes_eq, nodes, List.map_cons, ← ih, typename]
    simp [Typename.children]

theorem toList_name_typename (o : Outline) : o.typename.name.toList = o.typename.shape.chars := by
  simp [Typename.name, label]

theorem toList_joinNames_typenames (os : List Outline) :
    (Typename.joinNames (os.map typename)).toList =
      TypeShape.commaSeparated ((os.map shape).map TypeShape.chars) := by
  rw [Typename.toList_joinNames (List.forall_mem_map.2 fun o _ => o.toList_name_typename)]
  simp [Function.comp_def]

theorem label_eq {o : Outline} {name : String} {location : Token}
    (hname : name.toList = o.shape.chars) (hplace : location = o.place) :
    o.label = ⟨name, location⟩ := by
  rw [label, ← hname, String.ofList_toList, hplace]

theorem typename_basic (name : String) (token : Token) :
    (basic name token).typename = .basic ⟨name, token⟩ := by
  have hlabel : (basic name token).label = ⟨name, token⟩ :=
    label_eq (by rw [shape, TypeShape.chars]) rfl
  rw [typename, hlabel]

theorem typename_parametric (constructor : Outline) (params : List Outline) :
    (parametric constructor params).typename =
      constructor.typename.parametricOf (params.map typename) := by
  rw [typename, Typename.parametricOf, typenames_eq_map]
  congr 1
  refine label_eq ?_ constructor.location_typename
  simp [Typename.toList_suffixOperand constructor.toList_name_typename,
    toList_joinNames_typenames, shape, TypeShape.chars]

theorem typename_tuple (paren : Token) (elements : List Outline) :
    (tuple paren elements).typename = .tupleOf (elements.map typename) paren := by
  rw [typename, Typename.tupleOf, typenames_eq_map]
  congr 1
  refine label_eq ?_ rfl
  simp [toList_joinNames_typenames, shape, TypeShape.chars]

theorem typename_function (result : Outline) (args : List Outline) :
    (function result args).typename = result.typename.functionOf (args.map typename) := by
  rw [typename, Typename.functionOf, typenames_eq_map]
  congr 1
  refine label_eq ?_ result.location_typename
  simp [toList_joinNames_typenames, result.toList_name_typename, shape, TypeShape.chars]

theorem typename_reference (permission region : Token) (referent : Outline) :
    (reference permission region referent).typename =
      .referenceTo permission region referent.typename := by
  rw [typename, Typename.referenceTo]
  congr 1
  refine label_eq ?_ (by rw [referent.location_typename, place])
  simp [Typename.toList_qualifierText, referent.toList_name_typename, shape, TypeShape.chars]

theorem typename_optional (wrapped : Outline) :
    (optional wrapped).typename = wrapped.typename.optionalOf := by
  rw [typename, Typename.optionalOf]
  congr 1
  refine label_eq ?_ wrapped.location_typename
  simp [Typename.toList_suffixOperand wrapped.toList_name_typename, shape, TypeShape.chars]

theorem substituteAll_typenames {os : List Outline} {param : String} {replacement : Outline}
    (h : ∀ o ∈ os, o.typename.substitute param replacement.typename =
      (o.substitute param replacement).typename) :
    Typename.substituteAll (os.map typename) param replacement.typename =
      (substituteAll os param replacement).map typename := by
  rw [Typename.substituteAll_eq_map, substituteAll_eq_map, List.map_map, List.map_map]
  exact List.map_congr_left h

/-- Substitution computes every label anew that has to change. -/
theorem substitute_typename (o : Outline) (param : String) (replacement : Outline) :
    o.typename.substitute param replacement.typename =
      (o.substitute param replacement).typename := by
  induction o with
  | basic name token =>
    rw [typename_basic, Typename.substitute, substitute]
    split
    · rfl
    · rw [typename_basic]
  | parametric constructor params ihc ihp =>
    rw [typename_parametric, Typename.parametricOf, Typename.substitute, substitute,
      typename_parametric, ihc, substituteAll_typenames ihp]
  | tuple paren elements ih =>
    rw [typename_tuple, Typename.tupleOf, Typename.substitute, substitute, typename_tuple,
      substituteAll_typenames ih]
  | function result args ihr iha =>
    rw [typename_function, Typename.functionOf, Typename.substitute, substitute,
      typename_function, ihr, substituteAll_typenames iha]
  | reference permission region referent ih =>
    rw [typename_reference, Typename.referenceTo, Typename.substitute, substitute,
      typename_reference, ih]
  | optional wrapped ih =>
    rw [typename_optional, Typename.optionalOf, Typename.substitute, substitute,
      typename_optional, ih]

end Outline

namespace Typename

theorem ne_empty_of_named {name : String} {location : Token} {t : Typename}
    (h : named name location = .ok t) : name ≠ "" := by
  rintro rfl
  cases h

theorem Built.name_ne_empty {t : Typename} (h : t.Built) : t.name ≠ "" := by
  cases h with
  | named h =>
    have hname := ne_empty_of_named h
    obtain rfl := eq_basic_of_named h
    exact hname
  | _ => simp

/-- A typename that is obtained by building, by copying a typename or a part of one, and by
substituting, any number of times and in any order, with its outline. -/
inductive Obtained : Typename → Outline → Prop
  | ofToken {token t} : ofToken token = .ok t → Obtained t (.basic token.lexeme token)
  | named {name location t} : named name location = .ok t → Obtained t (.basic name location)
  | parametricOf {constructor o} {params : List (Typename × Outline)} :
    Obtained constructor o → (∀ p ∈ params, Obtained p.1 p.2) →
    Obtained (parametricOf constructor (params.map Prod.fst))
      (.parametric o (params.map Prod.snd))
  | tupleOf {elements : List (Typename × Outline)} {paren} :
    (∀ e ∈ elements, Obtained e.1 e.2) →
    Obtained (tupleOf (elements.map Prod.fst) paren) (.tuple paren (elements.map Prod.snd))
  | unitAt {paren} : Obtained (unitAt paren) (.tuple paren [])
  | functionOf {result o} {args : List (Typename × Outline)} :
    Obtained result o → (∀ a ∈ args, Obtained a.1 a.2) →
    Obtained (functionOf result (args.map Prod.fst)) (.function o (args.map Prod.snd))
  | referenceTo {permission region referent o} : Obtained referent o →
    Obtained (referenceTo permission region referent) (.reference permission region o)
  | optionalOf {wrapped o} : Obtained wrapped o → Obtained (optionalOf wrapped) (.optional o)
  | copy {t o part q} {i : ℕ} : Obtained t o → t.nodes[i]? = some part →
    o.nodes[i]? = some q → Obtained part.copy q
  | substitute {t o param replacement q} : Obtained t o → Obtained replacement q →
    Obtained (t.substitute param replacement) (o.substitute param q)

variable {t : Typename} {o : Outline}

/-- Copies and substitutions lead to nothing that could not be built. -/
theorem Obtained.built (h : Obtained t o) : t.Built := by
  induction h with
  | ofToken h | named h => exact .named h
  | parametricOf _ _ ihc ihp => exact .parametricOf ihc (List.forall_mem_map.2 ihp)
  | tupleOf _ ih => exact .tupleOf (List.forall_mem_map.2 ih)
  | unitAt => exact .tupleOf fun e he => absurd he List.not_mem_nil
  | functionOf _ _ ihr iha => exact .functionOf ihr (List.forall_mem_map.2 iha)
  | referenceTo _ ih => exact .referenceTo ih
  | optionalOf _ ih => exact .optionalOf ih
  | copy _ hpart _ ih =>
    rw [copy_eq]
    exact ih.of_mem_nodes (List.mem_of_getElem? hpart)
  | substitute _ _ iht ihr => exact iht.substitute ihr _

theorem map_fst_eq_typenames {parts : List (Typename × Outline)}
    (h : ∀ p ∈ parts, p.1 = p.2.typename) :
    parts.map Prod.fst = (parts.map Prod.snd).map Outline.typename := by
  rw [List.map_map]
  exact List.map_congr_left h

theorem Obtained.eq_typename (h : Obtained t o) : t = o.typename := by
  induction h with
  | ofToken h | named h =>
    rw [Outline.typename_basic]
    exact eq_basic_of_named h
  | parametricOf _ _ ihc ihp =>
    rw [Outline.typename_parametric, ← ihc, map_fst_eq_typenames ihp]
  | tupleOf _ ih => rw [Outline.typename_tuple, map_fst_eq_typenames ih]
  | unitAt => rw [Outline.typename_tuple]; rfl
  | functionOf _ _ ihr iha =>
    rw [Outline.typename_function, ← ihr, map_fst_eq_typenames iha]
  | referenceTo _ ih => rw [Outline.typename_reference, ← ih]
  | optionalOf _ ih => rw [Outline.typename_optional, ← ih]
  | copy _ hpart houtline ih =>
    rw [ih, Outline.nodes_typename, List.getElem?_map, houtline] at hpart
    rw [copy_eq]
    exact (Option.some.inj hpart).symm
  | substitute _ _ iht ihr => rw [iht, ihr, Outline.substitute_typename]

/-- The label of every node of a typename holds a name that is not empty, the name that the outline
of the node spells and the place that it gives. -/
theorem Obtained.label_eq_structure (h : Obtained t o) :
    List.Forall₂ (fun u v => u = v.typename ∧ u.name ≠ "" ∧ u.name.toList = v.shape.chars ∧
      u.location = v.place) t.nodes o.nodes := by
  have hbuilt := h.built
  obtain rfl := h.eq_typename
  rw [Outline.nodes_typename, List.forall₂_map_left_iff, List.forall₂_same]
  intro v hv
  have hnode : v.typename ∈ o.typename.nodes := by
    rw [Outline.nodes_typename]
    exact List.mem_map_of_mem hv
  have hname := v.toList_name_typename
  rw [v.shape_typename] at hname
  exact ⟨rfl, (hbuilt.of_mem_nodes hnode).name_ne_empty, hname, v.location_typename⟩

/-- A function is put for the parameter of an optional in a tuple: parentheses appear in front of
the suffix, the place moves to the result of the function, and the tuple keeps its own. -/
theorem Obtained.label_eq_structure_optional_of_function :
    let paren : Token := ⟨"(", ⟨0, 1⟩, 1⟩
    let int : Token := ⟨"int", ⟨7, 10⟩, 2⟩
    let optional := (basic ⟨"T", ⟨"T", ⟨1, 2⟩, 1⟩⟩).optionalOf
    let t := (Typename.tupleOf [optional] paren).substitute "T" ((basic ⟨"int", int⟩).functionOf [])
    let o := Outline.tuple paren [.optional (.function (.basic "int" int) [])]
    Obtained t o ∧
    List.Forall₂ (fun u v => u = v.typename ∧ u.name ≠ "" ∧ u.name.toList = v.shape.chars ∧
      u.location = v.place) t.nodes o.nodes ∧
    t.nodes.map name = ["((fn() int)?)", "(fn() int)?", "fn() int", "int"] ∧
    t.nodes.map location = [paren, int, int, int] := by
  intro paren int optional t o
  have hparameter : Obtained (basic ⟨"T", ⟨"T", ⟨1, 2⟩, 1⟩⟩) (.basic "T" ⟨"T", ⟨1, 2⟩, 1⟩) :=
    @Obtained.ofToken ⟨"T", ⟨1, 2⟩, 1⟩ _ rfl
  have hresult : Obtained (basic ⟨"int", int⟩) (.basic "int" int) := @Obtained.ofToken int _ rfl
  have hfunction :
      Obtained ((basic ⟨"int", int⟩).functionOf []) (.function (.basic "int" int) []) :=
    @Obtained.functionOf _ _ [] hresult fun a ha => absurd ha List.not_mem_nil
  have htuple : Obtained (Typename.tupleOf [optional] paren)
      (.tuple paren [.optional (.basic "T" ⟨"T", ⟨1, 2⟩, 1⟩)]) :=
    @Obtained.tupleOf [(optional, .optional (.basic "T" ⟨"T", ⟨1, 2⟩, 1⟩))] paren
      (List.forall_mem_singleton.2 (.optionalOf hparameter))
  have ht : Obtained t o := .substitute htuple hfunction
  have hnodes : t.nodes = [t, ((basic ⟨"int", int⟩).functionOf []).optionalOf,
      (basic ⟨"int", int⟩).functionOf [], basic ⟨"int", int⟩] := by
    simp [t, optional, nodes_eq, children, Typename.tupleOf, Typename.optionalOf,
      Typename.functionOf, Typename.substitute]
  refine ⟨ht, ht.label_eq_structure, ?_, ?_⟩
  · rw [hnodes]
    decide
  · rw [hnodes]
    rfl

end Typename
end LangCore
