import LangCore.Heap.Basic
import LangCore.Heap.ValueType

/-!
# Types of values in a heap

An array has the type of its last value for its elements; an empty one has
elements of the dynamic type, and so does a handle to nothing. The chain of last
values is followed through the slots, with a bound on its length: in a heap
whose arrays only hold earlier handles one more than the number of slots is
always enough.
-/

namespace LangCore.Heap

/-- The type of a value if at most `fuel` values have to be looked at. -/
def typeWithin (heap : Heap) : Nat → Value → Option ValueType
  | 0, _ => none
  | fuel + 1, v =>
    match v with
    | .nil => some .nil
    | .bool _ => some .bool
    | .int _ => some .int
    | .float _ => some .float
    | .object handle =>
      match heap.get? handle with
      | none => some .dynamic
      | some (.string _) => some .string
      | some (.array values) =>
        match values.getLast? with
        | none => some (.array .dynamic)
        | some last => (heap.typeWithin fuel last).map .array

/-- The number of values on a chain that meets no slot twice. -/
def typeFuel (heap : Heap) : Nat :=
  heap.slots.size + 1

def typeOf (heap : Heap) (v : Value) : ValueType :=
  (heap.typeWithin heap.typeFuel v).getD .dynamic

/-- The type of an object, unless it has been swept. -/
def objectType? (heap : Heap) (handle : Handle) : Option ValueType :=
  (heap.get? handle).map fun _ => heap.typeOf (.object handle)

theorem typeWithin_mono {heap : Heap} {fuel fuel' : Nat} {v : Value} {type : ValueType}
    (h : heap.typeWithin fuel v = some type) (hle : fuel ≤ fuel') :
    heap.typeWithin fuel' v = some type := by
  induction fuel generalizing fuel' v type with
  | zero => simp [typeWithin] at h
  | succ fuel ih =>
    obtain ⟨fuel', rfl⟩ : ∃ n, fuel' = n + 1 := ⟨fuel' - 1, by omega⟩
    cases v with
    | object handle =>
      simp only [typeWithin] at h ⊢
      split at h
      · exact h
      · exact h
      · split at h
        · exact h
        · obtain ⟨element, he, rfl⟩ := Option.map_eq_some_iff.1 h
          rw [ih he (Nat.le_of_succ_le_succ hle)]
          rfl
    | _ => simpa [typeWithin] using h

end LangCore.Heap
