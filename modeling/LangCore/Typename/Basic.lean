import LangCore.Fault
import LangCore.Source.Token
import LangCore.Typename.Kind

/-!
# Typenames

A typename is a type as it is written in source: `Map<Key, (int, bool)>?` or
`fn(int) &mut Buffer`. Every node carries a label with its canonical name and
the token it is reported at; the building functions below compute both from the
labels of the parts, so that neither is ever recomputed from the whole tree.

Two typenames denote the same type exactly when their canonical names are equal.
Functions and references stand in parentheses wherever a suffix would otherwise
attach to the typename at their end.
-/

namespace LangCore

/-- The canonical name of a typename and the token it is reported at. -/
structure Label where
  name : String
  location : Token

inductive Typename
  | basic (label : Label)
  | parametric (label : Label) (constructor : Typename) (params : List Typename)
  | tuple (label : Label) (elements : List Typename)
  | function (label : Label) (result : Typename) (args : List Typename)
  | reference (label : Label) (permission region : Token) (referent : Typename)
  | optional (label : Label) (wrapped : Typename)

namespace Typename

def label : Typename → Label
  | basic label | parametric label _ _ | tuple label _ | function label _ _
  | reference label _ _ _ | optional label _ => label

def name (t : Typename) : String := t.label.name

/-- The token to report the typename at. -/
def location (t : Typename) : Token := t.label.location

def span (t : Typename) : Span := t.location.span

instance : Inhabited Typename := ⟨basic ⟨"", .absent⟩⟩

def kind : Typename → TypenameKind
  | basic _ => .basic
  | parametric _ _ _ => .parametric
  | tuple _ _ => .tuple
  | function _ _ _ => .function
  | reference _ _ _ _ => .reference
  | optional _ _ => .optional

/-- Typenames are compared by their canonical names. -/
instance : BEq Typename := ⟨fun a b => a.name == b.name⟩

theorem beq_eq (a b : Typename) : (a == b) = (a.name == b.name) := rfl

/-- The name as it stands before a suffix. -/
def suffixOperand (t : Typename) : String :=
  if t.kind.endsOpen then "(" ++ t.name ++ ")" else t.name

def joinNames (ts : List Typename) : String :=
  ", ".intercalate (ts.map name)

/-- A qualifier of a reference, followed by a blank unless it is omitted. -/
def qualifierText (qualifier : Token) : String :=
  if qualifier.isEmpty then "" else qualifier.lexeme ++ " "

/-- A named type that is reported at another token than its name. -/
def named (name : String) (location : Token) : Except Fault Typename :=
  if name.isEmpty then .error .emptyName else .ok (basic ⟨name, location⟩)

/-- A named type, taken from its token. -/
def ofToken (token : Token) : Except Fault Typename :=
  named token.lexeme token

def parametricOf (constructor : Typename) (params : List Typename) : Typename :=
  parametric ⟨constructor.suffixOperand ++ "<" ++ joinNames params ++ ">", constructor.location⟩
    constructor params

/-- A tuple type, reported at its parenthesis. -/
def tupleOf (elements : List Typename) (paren : Token) : Typename :=
  tuple ⟨"(" ++ joinNames elements ++ ")", paren⟩ elements

/-- The type without elements. -/
def unitAt (paren : Token) : Typename :=
  tupleOf [] paren

/-- A function type, reported at its result. -/
def functionOf (result : Typename) (args : List Typename) : Typename :=
  function ⟨"fn(" ++ joinNames args ++ ") " ++ result.name, result.location⟩ result args

/-- A reference type, reported at its first part in the order permission, region, referent.
Permission and region may be absent. -/
def referenceTo (permission region : Token) (referent : Typename) : Typename :=
  let location :=
    if !permission.isEmpty then permission
    else if !region.isEmpty then region
    else referent.location
  reference
    ⟨"&" ++ qualifierText region ++ qualifierText permission ++ referent.name, location⟩
    permission region referent

def optionalOf (wrapped : Typename) : Typename :=
  optional ⟨wrapped.suffixOperand ++ "?", wrapped.location⟩ wrapped

@[simp] theorem name_parametricOf (constructor : Typename) (params : List Typename) :
    (constructor.parametricOf params).name =
      constructor.suffixOperand ++ "<" ++ joinNames params ++ ">" := rfl

@[simp] theorem name_tupleOf (elements : List Typename) (paren : Token) :
    (tupleOf elements paren).name = "(" ++ joinNames elements ++ ")" := rfl

@[simp] theorem name_functionOf (result : Typename) (args : List Typename) :
    (result.functionOf args).name = "fn(" ++ joinNames args ++ ") " ++ result.name := rfl

@[simp] theorem name_referenceTo (permission region : Token) (referent : Typename) :
    (referenceTo permission region referent).name =
      "&" ++ qualifierText region ++ qualifierText permission ++ referent.name := rfl

@[simp] theorem name_optionalOf (wrapped : Typename) :
    wrapped.optionalOf.name = wrapped.suffixOperand ++ "?" := rfl

def isUnit : Typename → Bool
  | tuple _ [] => true
  | _ => false

def constructor? : Typename → Option Typename
  | parametric _ constructor _ => some constructor
  | _ => none

def params? : Typename → Option (List Typename)
  | parametric _ _ params => some params
  | _ => none

def elements? : Typename → Option (List Typename)
  | tuple _ elements => some elements
  | _ => none

def result? : Typename → Option Typename
  | function _ result _ => some result
  | _ => none

def args? : Typename → Option (List Typename)
  | function _ _ args => some args
  | _ => none

def permission? : Typename → Option Token
  | reference _ permission _ _ => some permission
  | _ => none

def region? : Typename → Option Token
  | reference _ _ region _ => some region
  | _ => none

def referent? : Typename → Option Typename
  | reference _ _ _ referent => some referent
  | _ => none

def wrapped? : Typename → Option Typename
  | optional _ wrapped => some wrapped
  | _ => none

/-- The direct parts in source order; the result of a function follows its arguments. -/
def children : Typename → List Typename
  | basic _ => []
  | parametric _ constructor params => constructor :: params
  | tuple _ elements => elements
  | function _ result args => args ++ [result]
  | reference _ _ _ referent => [referent]
  | optional _ wrapped => [wrapped]

theorem sizeOf_lt_of_mem_children {t child : Typename} (h : child ∈ t.children) :
    sizeOf child < sizeOf t := by
  cases t with
  | basic => exact absurd h List.not_mem_nil
  | parametric label constructor params =>
    rw [parametric.sizeOf_spec]
    rcases List.mem_cons.1 h with rfl | h
    · omega
    · have := List.sizeOf_lt_of_mem h
      omega
  | tuple label elements =>
    have : sizeOf child < sizeOf elements := List.sizeOf_lt_of_mem h
    rw [tuple.sizeOf_spec]
    omega
  | function label result args =>
    rw [function.sizeOf_spec]
    rcases List.mem_append.1 h with h | h
    · have := List.sizeOf_lt_of_mem h
      omega
    · obtain rfl := List.mem_singleton.1 h
      omega
  | reference label permission region referent =>
    obtain rfl := List.mem_singleton.1 h
    rw [reference.sizeOf_spec]
    omega
  | optional label wrapped =>
    obtain rfl := List.mem_singleton.1 h
    rw [optional.sizeOf_spec]
    omega

mutual

/-- A copy of every node. Labels are copied as they are, not computed anew. -/
def copy : Typename → Typename
  | basic label => basic label
  | parametric label constructor params => parametric label constructor.copy (copyAll params)
  | tuple label elements => tuple label (copyAll elements)
  | function label result args => function label result.copy (copyAll args)
  | reference label permission region referent => reference label permission region referent.copy
  | optional label wrapped => optional label wrapped.copy

def copyAll : List Typename → List Typename
  | [] => []
  | t :: rest => t.copy :: copyAll rest

end

mutual

theorem copy_eq : ∀ t : Typename, t.copy = t
  | basic _ => rfl
  | parametric _ constructor params => by rw [copy, copy_eq constructor, copyAll_eq params]
  | tuple _ elements => by rw [copy, copyAll_eq elements]
  | function _ result args => by rw [copy, copy_eq result, copyAll_eq args]
  | reference _ _ _ referent => by rw [copy, copy_eq referent]
  | optional _ wrapped => by rw [copy, copy_eq wrapped]

theorem copyAll_eq : ∀ ts : List Typename, copyAll ts = ts
  | [] => rfl
  | t :: rest => by rw [copyAll, copy_eq t, copyAll_eq rest]

end

def inspect (t : Typename) : String :=
  t.kind.name ++ "(" ++ t.name ++ ") @ " ++ t.span.text

end Typename
end LangCore
