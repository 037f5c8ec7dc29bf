import LangCore.Heap.Basic

/-!
# Equality of contents

Values compare by what they hold, looking through handles: strings by their
contents and arrays value by value. A handle to nothing equals nothing, and a
handle equals itself without a look at what it holds. Comparing follows pairs of
values, with a bound on how deep it goes that exceeds the number of pairs of
slots.
-/

namespace LangCore.Heap

/-- Compares lists of the same length value by value, up to the first difference. -/
def allEqual (equal : Value → Value → Option Bool) : List Value → List Value → Option Bool
  | v :: vs, w :: ws =>
    match equal v w with
    | some true => allEqual equal vs ws
    | other => other
  | _, _ => some true

/-- Compares two objects by contents, the values in them with the given comparison. -/
def contentsEqual (equal : Value → Value → Option Bool) : Object → Object → Option Bool
  | .string a, .string b => some (a == b)
  | .array vs, .array ws => if vs.length = ws.length then allEqual equal vs ws else some false
  | _, _ => some false

/-- Compares two values if at most `fuel` pairs lie between them and the innermost ones. -/
def equalWithin (heap : Heap) : Nat → Value → Value → Option Bool
  | 0, _, _ => none
  | fuel + 1, v, w =>
    match v, w with
    | .object a, .object b =>
      match heap.get? a, heap.get? b with
      | some left, some right =>
        if a = b then some true else contentsEqual (heap.equalWithin fuel) left right
      | _, _ => some false
    | _, _ => some (v.same w)

/-- More than the number of pairs of slots. -/
def equalFuel (heap : Heap) : Nat :=
  heap.slots.size * heap.slots.size + 2

def valuesEqual (heap : Heap) (v w : Value) : Bool :=
  (heap.equalWithin heap.equalFuel v w).getD false

/-- Whether two objects have the same contents; a swept one has none. -/
def objectsEqual (heap : Heap) (a b : Handle) : Bool :=
  heap.valuesEqual (.object a) (.object b)

end LangCore.Heap
