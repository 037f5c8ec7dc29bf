import LangCore.Decimal.Style
import LangCore.Inspect.Basic

/-!
# Runtime values

A value is a primitive or a handle to an object of a heap. Handles are compared
by identity here; what they refer to is known to the heap alone.
-/

namespace LangCore

/-- The place of an object in the heap that allocated it. -/
structure Handle where
  index : Nat
  deriving DecidableEq

def Handle.text (h : Handle) : String :=
  "#" ++ toString h.index

inductive Value
  | nil
  | bool (b : Bool)
  | int (n : Int64)
  | float (x : Binary64)
  | object (handle : Handle)
  deriving DecidableEq

namespace Value

instance : Inhabited Value := ⟨nil⟩

def isNil : Value → Bool
  | nil => true
  | _ => false

def handle? : Value → Option Handle
  | object handle => some handle
  | _ => none

/-- Equality without a look at objects: floats compare as numbers, handles by identity. -/
def same : Value → Value → Bool
  | nil, nil => true
  | bool a, bool b => a == b
  | int a, int b => a == b
  | float a, float b => a.equal b
  | object a, object b => a == b
  | _, _ => false

theorem same_comm (v w : Value) : v.same w = w.same v := by
  cases v <;> cases w <;> simp [same, Binary64.equal_comm, BEq.comm]

def inspection : Value → Inspection
  | nil => .word "Nil"
  | bool b => .variant "Bool" (.word (if b then "true" else "false"))
  | int n => .variant "Int" (.word (toString n.toInt))
  | float x => .variant "Float" (.word x.exactText)
  | object handle => .variant "Object" (.word handle.text)

end Value
end LangCore
