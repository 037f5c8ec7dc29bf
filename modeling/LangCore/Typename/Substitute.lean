import LangCore.Typename.Basic

/-!
# Substitution in typenames

Instantiating a generic declaration replaces every basic typename of a given
name. The nodes above a replaced one are built anew, with new names and
locations; only a tuple keeps its own location. The replacement itself is not
searched.
-/

namespace LangCore.Typename

mutual

/-- The typename with `replacement` for every basic typename named `param`. -/
def substitute (t : Typename) (param : String) (replacement : Typename) : Typename :=
  match t with
  | basic label => if label.name = param then replacement else basic label
  | parametric _ constructor params =>
    parametricOf (constructor.substitute param replacement)
      (substituteAll params param replacement)
  | tuple label elements => tupleOf (substituteAll elements param replacement) label.location
  | function _ result args =>
    functionOf (result.substitute param replacement) (substituteAll args param replacement)
  | reference _ permission region referent =>
    referenceTo permission region (referent.substitute param replacement)
  | optional _ wrapped => optionalOf (wrapped.substitute param replacement)

def substituteAll (ts : List Typename) (param : String) (replacement : Typename) :
    List Typename :=
  match ts with
  | [] => []
  | t :: rest => t.substitute param replacement :: substituteAll rest param replacement

end

@[simp] theorem substituteAll_eq_map (ts : List Typename) (param : String)
    (replacement : Typename) :
    substituteAll ts param replacement = ts.map (substitute · param replacement) := by
  induction ts with
  | nil => rfl
  | cons t ts ih => simp [substituteAll, ih]

/-- Substitutes for several parameters in turn, listing the typename after every step. -/
def substituteEach (t : Typename) : List (String × Typename) → List Typename
  | [] => []
  | (param, replacement) :: rest =>
    let next := t.substitute param replacement
    next :: next.substituteEach rest

end LangCore.Typename
