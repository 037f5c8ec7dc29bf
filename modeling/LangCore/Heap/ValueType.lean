import LangCore.Inspect.Basic
import LangCore.Typename.Basic

/-!
# Types of values

The type of a value is found from the value itself, unlike a typename, which is
written in source. Both follow one scheme of names, so the two can be compared.
A dynamic type stands for an element type that is not known.
-/

namespace LangCore

inductive ValueType
  | dynamic
  | nil
  | bool
  | int
  | float
  | string
  | array (element : ValueType)
  deriving DecidableEq

namespace ValueType

def name : ValueType → String
  | dynamic => "Dynamic"
  | nil => "Nil"
  | bool => "Bool"
  | int => "Int"
  | float => "Float"
  | string => "String"
  | array element => "Array<" ++ element.name ++ ">"

def element? : ValueType → Option ValueType
  | array element => some element
  | _ => none

/-- Arrays of arrays, so many levels deep. -/
def arrays : Nat → ValueType → ValueType
  | 0, base => base
  | n + 1, base => array (arrays n base)

@[simp] theorem arrays_zero (base : ValueType) : arrays 0 base = base := rfl

@[simp] theorem arrays_succ (n : Nat) (base : ValueType) :
    arrays (n + 1) base = array (arrays n base) := rfl

/-- The parameter of a typename that applies `Array` to exactly one. -/
def arrayParam? (t : Typename) : Option Typename :=
  match t with
  | .parametric _ constructor [param] => if constructor.name = "Array" then some param else none
  | _ => none

/-- Whether a value of the type may stand where the typename is expected. The dynamic type fits
everywhere, also as the element of an array; all others are compared by name. -/
def conformsTo : ValueType → Typename → Bool
  | dynamic, _ => true
  | array element, t =>
    match arrayParam? t with
    | some param => element.conformsTo param
    | none => false
  | type, t => type.name == t.name

def inspection : ValueType → Inspection
  | array element => .variant "Array" element.inspection
  | type => .word type.name

end ValueType
end LangCore
