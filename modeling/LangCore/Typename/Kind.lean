import LangCore.Json.Basic

/-!
# Kinds of typenames

The six ways in which a type can be written.
-/

namespace LangCore

inductive TypenameKind
  | basic
  | parametric
  | tuple
  | function
  | reference
  | optional
  deriving DecidableEq

namespace TypenameKind

def all : List TypenameKind :=
  [.basic, .parametric, .tuple, .function, .reference, .optional]

/-- The kind with a capital letter, as inspection and JSON write it. -/
def name : TypenameKind → String
  | .basic => "Basic"
  | .parametric => "Parametric"
  | .tuple => "Tuple"
  | .function => "Function"
  | .reference => "Reference"
  | .optional => "Optional"

/-- The kind in lower case, as messages write it. -/
def label : TypenameKind → String
  | .basic => "basic"
  | .parametric => "parametric"
  | .tuple => "tuple"
  | .function => "function"
  | .reference => "reference"
  | .optional => "optional"

/-- Whether the text of such a typename ends in the text of another one, to which a suffix
would then attach. -/
def endsOpen : TypenameKind → Bool
  | .function | .reference => true
  | .basic | .parametric | .tuple | .optional => false

def ofName? (name : String) : Option TypenameKind :=
  all.find? fun kind => kind.name == name

@[simp] theorem ofName?_name (kind : TypenameKind) : ofName? kind.name = some kind := by
  cases kind <;> decide

def toJson (kind : TypenameKind) : Json :=
  .string kind.name

def ofJson? (json : Json) : Option TypenameKind := do
  ofName? (← json.variant?)

@[simp] theorem ofJson?_toJson (kind : TypenameKind) : ofJson? kind.toJson = some kind := by
  simp [ofJson?, toJson]

end TypenameKind
end LangCore
