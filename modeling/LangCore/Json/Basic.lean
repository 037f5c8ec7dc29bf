/-!
# JSON values

A value and the ways a record of named fields can be read from one. Numbers are
kept as they were written: a whole number of units of some power of a tenth, so
that an integer is told apart from the same number written with a point.
-/

namespace LangCore

/-- A JSON value. `number m p` is `m` units of the `p`-th place after the point. -/
inductive Json
  | null
  | bool (b : Bool)
  | number (mantissa : Int) (places : Nat)
  | string (s : String)
  | array (items : List Json)
  | object (entries : List (String × Json))

namespace Json

def ofNat (n : Nat) : Json :=
  .number n 0

def string? : Json → Option String
  | .string s => some s
  | _ => none

/-- An integer that fits a 32-bit word. -/
def word? : Json → Option UInt32
  | .number mantissa 0 =>
    if 0 ≤ mantissa ∧ mantissa < UInt32.size then some (.ofNat mantissa.toNat) else none
  | _ => none

@[simp] theorem string?_string (s : String) : (string s).string? = some s := rfl

@[simp] theorem word?_ofNat (w : UInt32) : (ofNat w.toNat).word? = some w := by
  have h : (w.toNat : Int) < UInt32.size := by
    have := w.toNat_lt
    simp only [UInt32.size]
    omega
  simp only [ofNat, word?]
  rw [if_pos ⟨Int.natCast_nonneg _, h⟩]
  simp

/-- The value of the only entry of a name. A repeated name is refused like a missing one. -/
def soleValue? (entries : List (String × Json)) (name : String) : Option Json :=
  match entries.filter fun entry => entry.1 == name with
  | [(_, value)] => some value
  | _ => none

/-- The values of a record's fields, in the order of their names. An object holds every field
once and may hold further entries; an array holds exactly the fields. -/
def fields? (names : List String) : Json → Option (List Json)
  | .object entries => names.mapM (soleValue? entries)
  | .array items => if items.length = names.length then some items else none
  | _ => none

/-- The name of a variant without contents: a string, or an object whose only entry is null. -/
def variant? : Json → Option String
  | .string name => some name
  | .object [(name, .null)] => some name
  | _ => none

@[simp] theorem variant?_string (s : String) : (string s).variant? = some s := rfl

end Json
end LangCore
