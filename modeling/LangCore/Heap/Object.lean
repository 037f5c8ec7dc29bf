import LangCore.Heap.Value

/-!
# Objects

What a heap holds: immutable strings and fixed arrays of values.
-/

namespace LangCore

inductive Object
  | string (data : String)
  | array (values : List Value)

namespace Object

/-- The word for the sort of the object. -/
def tag : Object → String
  | string _ => "string"
  | array _ => "array"

def string? : Object → Option String
  | string data => some data
  | array _ => none

def array? : Object → Option (List Value)
  | string _ => none
  | array values => some values

/-- The length of a string in bytes, or the number of values of an array. -/
def length : Object → Nat
  | string data => data.utf8ByteSize
  | array values => values.length

def isEmpty (o : Object) : Bool :=
  o.length == 0

/-- The text shown to users: strings show their contents and arrays nothing. -/
def text : Object → String
  | string data => data
  | array _ => ""

/-- The value at an index, counted from zero; there is none at a negative one. -/
def at? (o : Object) (index : Int) : Option Value :=
  match o with
  | string _ => none
  | array values => if 0 ≤ index then values[index.toNat]? else none

def inspection : Object → Inspection
  | string data => .variant "String" (.record "StringObject" [("data", .quoted data)])
  | array values =>
    .variant "Array" (.record "ArrayObject" [("values", .list (values.map Value.inspection))])

end Object
end LangCore
