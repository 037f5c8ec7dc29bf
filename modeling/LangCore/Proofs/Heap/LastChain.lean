import Mathlib
import LangCore.Proofs.Heap.Bounds

/-!
# Chains of last values

From a value on, each last value of an array leads to the next one, up to a value
that is no array with values in it. The arrays on the way and the value at the end
determine the type of the first one. In a heap of earlier handles every chain
ends, after no more arrays than there are live objects.
-/

namespace LangCore.Heap

def last? (heap : Heap) (v : Value) : Option Value :=
  (heap.resolve? v).bind fun o => o.values.getLast?

/-- Whether a value refers to an array that has not been swept. -/
def isArray (heap : Heap) (v : Value) : Bool :=
  ((heap.resolve? v).bind Object.array?).isSome

/-- The type behind the arrays of a chain, by the value at its end: an array there is empty, and so
the type of its values is as unknown as that of a handle to nothing. -/
def baseType (heap : Heap) : Value → ValueType
  | .nil => .nil
  | .bool _ => .bool
  | .int _ => .int
  | .float _ => .float
  | .object id =>
    match heap.get? id with
    | some (.string _) => .string
    | _ => .dynamic

/-- The values met from the first one on, each the last value of the one before, and the one at the
end, which has no last value. -/
inductive LastChain (heap : Heap) : Value → List Value → Value → Prop
  | stop {v : Value} (h : heap.last? v = none) : LastChain heap v [v] v
  | next {v u base : Value} {chain : List Value} (h : heap.last? v = some u)
      (rest : LastChain heap u chain base) : LastChain heap v (v :: chain) base

variable {heap : Heap}

theorem last?_array {id : Handle} {values : List Value}
    (hid : heap.get? id = some (.array values)) :
    heap.last? (.object id) = values.getLast? := by
  simp [last?, resolve?, Value.handle?, hid]

theorem isArray_array {id : Handle} {values : List Value}
    (hid : heap.get? id = some (.array values)) : heap.isArray (.object id) = true := by
  simp [isArray, resolve?, Value.handle?, hid, Object.array?]

theorem exists_array_of_last? {v u : Value} (h : heap.last? v = some u) :
    ∃ id values, v = .object id ∧ heap.get? id = some (.array values) ∧
      values.getLast? = some u := by
  obtain ⟨o, ho, hlast⟩ := Option.bind_eq_some_iff.1 h
  obtain ⟨id, rfl, hid⟩ := exists_object_of_resolve? ho
  cases o with
  | string data => cases hlast
  | array values => exact ⟨id, values, rfl, hid, hlast⟩

theorem exists_array_of_isArray {v : Value} (h : heap.isArray v = true) :
    ∃ id values, v = .object id ∧ heap.get? id = some (.array values) := by
  obtain ⟨values, hvalues⟩ := Option.isSome_iff_exists.1 h
  obtain ⟨o, ho, harray⟩ := Option.bind_eq_some_iff.1 hvalues
  obtain ⟨id, rfl, hid⟩ := exists_object_of_resolve? ho
  cases o with
  | string data => cases harray
  | array values => exact ⟨id, values, rfl, hid⟩

theorem Acyclic.exists_lastChain (h : heap.Acyclic) (v : Value) :
    ∃ chain base, heap.LastChain v chain base := by
  induction v using h.value_induction with
  | primitive v hv => exact ⟨[v], v, .stop (by simp [last?, resolve?, hv])⟩
  | nothing id hid => exact ⟨_, _, .stop (by simp [last?, resolve?, Value.handle?, hid])⟩
  | live id o hid ih =>
    cases hlast : heap.last? (.object id) with
    | none => exact ⟨_, _, .stop hlast⟩
    | some u =>
      have hmem : u ∈ o.values := by
        rw [last?, resolve?, Value.handle?, Option.bind_some, hid] at hlast
        exact List.mem_of_getLast? hlast
      obtain ⟨chain, base, hrest⟩ := ih u hmem
      exact ⟨_, base, .next hlast hrest⟩

/-- The type of a value is that of the value at the end of its chain, inside one array type for
each array on the way. -/
theorem LastChain.typeOf_eq (h : heap.Acyclic) {v base : Value} {chain : List Value}
    (hchain : heap.LastChain v chain base) :
    heap.typeOf v = .arrays (chain.countP heap.isArray) (heap.baseType base) := by
  induction hchain with
  | @stop v hstop =>
    cases v with
    | object id =>
      cases hid : heap.get? id with
      | none =>
        rw [typeOf_nothing hid]
        simp [isArray, resolve?, Value.handle?, baseType, hid]
      | some o =>
        cases o with
        | string data =>
          rw [typeOf_string hid]
          simp [isArray, resolve?, Value.handle?, baseType, hid, Object.array?]
        | array values =>
          rw [last?_array hid] at hstop
          rw [h.typeOf_array hid, hstop, List.countP_singleton, isArray_array hid]
          simp [baseType, hid]
    | _ => rfl
  | @next v u base chain hlast rest ih =>
    obtain ⟨id, values, rfl, hid, hu⟩ := exists_array_of_last? hlast
    rw [h.typeOf_array hid, hu, List.countP_cons_of_pos (isArray_array hid)]
    simp [ih]

/-- The arrays of a chain stand in different slots from the last sweep on. -/
theorem LastChain.countP_le (h : heap.Acyclic) {objects : List Object} {swept : ℕ}
    (hshows : heap.Shows objects swept) {v base : Value} {chain : List Value}
    (hchain : heap.LastChain v chain base) :
    chain.countP heap.isArray ≤ heap.depth v - swept := by
  have hslot : ∀ {id o}, heap.get? id = some o → swept ≤ id.index := by
    intro id o hid
    rw [hshows.get?] at hid
    by_contra hlt
    rw [if_neg hlt] at hid
    cases hid
  induction hchain with
  | @stop v hstop =>
    rw [List.countP_singleton]
    split
    · rename_i harray
      obtain ⟨id, values, rfl, hid⟩ := exists_array_of_isArray harray
      have hle := hslot hid
      rw [depth_object hid]
      omega
    · exact Nat.zero_le _
  | @next v u base chain hlast rest ih =>
    obtain ⟨id, values, rfl, hid, hu⟩ := exists_array_of_last? hlast
    have hle := hslot hid
    have hlt := h.depth_lt hid (List.mem_of_getLast? hu)
    rw [depth_object hid] at hlt ⊢
    rw [List.countP_cons_of_pos (isArray_array hid)]
    omega

/-- In a run that stores only its own handles, looking at one value more than there are slots is
enough for types and for equality, and types follow the chains of last values. -/
theorem run_bounded_and_typed_by_lastChain {ops : List HeapOp} (h : StoresOwn ops) :
    let heap := (empty.run ops).2
    heap.Acyclic ∧
      (∀ fuel v w, heap.slots.size + 1 ≤ fuel →
        heap.typeWithin fuel v = some (heap.typeOf v) ∧
          heap.equalWithin fuel v w = some (heap.valuesEqual v w)) ∧
      (∀ id ∈ (empty.run ops).1,
        heap.get? id = none ↔ id ∈ (empty.run (beforeLastSweep ops)).1) ∧
      ∀ v, (∃ chain base, heap.LastChain v chain base) ∧
        ∀ chain base, heap.LastChain v chain base →
          heap.typeOf v = .arrays (chain.countP heap.isArray) (heap.baseType base) ∧
            chain.countP heap.isArray ≤ heap.live := by
  intro heap
  have hacyclic : heap.Acyclic := acyclic_run h
  refine ⟨hacyclic, fun fuel v w hfuel => hacyclic.bounded hfuel v w,
    fun id hid => get?_eq_none_iff_mem_beforeLastSweep hid, ?_⟩
  intro v
  refine ⟨hacyclic.exists_lastChain v, fun chain base hchain => ?_⟩
  refine ⟨hchain.typeOf_eq hacyclic, ?_⟩
  have hshows := shows_run ops
  have hsize : heap.depth v ≤ heap.slots.size := heap.depth_le v
  calc chain.countP heap.isArray
      ≤ heap.depth v - _ := hchain.countP_le hacyclic hshows
    _ ≤ heap.slots.size - _ := Nat.sub_le_sub_right hsize _
    _ = heap.live := by rw [hshows.live, ← hshows.size]

/-- An array whose last value is an array of a swept string. -/
theorem run_bounded_and_typed_by_lastChain_swept :
    let ops : List HeapOp := [.string "a", .sweep, .array [.object ⟨0⟩], .array [.nil, .object ⟨1⟩]]
    let heap := (empty.run ops).2
    StoresOwn ops ∧ heap.typeWithin 4 (.object ⟨2⟩) = some (.array (.array .dynamic)) := by
  intro ops heap
  have hown : StoresOwn ops := by decide
  have hshows := shows_run ops
  have hsize : heap.slots.size + 1 ≤ 4 := by
    rw [hshows.size]
    decide
  obtain ⟨-, hbound, hswept, hchain⟩ := run_bounded_and_typed_by_lastChain hown
  have houter : heap.get? ⟨2⟩ = some (.array [.nil, .object ⟨1⟩]) := hshows.get? ⟨2⟩
  have hinner : heap.get? ⟨1⟩ = some (.array [.object ⟨0⟩]) := hshows.get? ⟨1⟩
  have hnothing : heap.get? ⟨0⟩ = none := (hswept ⟨0⟩ (by decide)).2 (by decide)
  have hlast : heap.LastChain (.object ⟨2⟩) [.object ⟨2⟩, .object ⟨1⟩, .object ⟨0⟩]
      (.object ⟨0⟩) := by
    refine .next (last?_array houter) (.next (last?_array hinner) (.stop ?_))
    simp [last?, resolve?, Value.handle?, hnothing]
  have htype : heap.typeOf (.object ⟨2⟩) = _ := ((hchain _).2 _ _ hlast).1
  have hwithin : heap.typeWithin 4 (.object ⟨2⟩) = _ := (hbound 4 (.object ⟨2⟩) .nil hsize).1
  refine ⟨hown, hwithin.trans (congrArg some (htype.trans ?_))⟩
  change ValueType.arrays (List.countP heap.isArray _) (heap.baseType _) = _
  simp [isArray, resolve?, Value.handle?, Object.array?, baseType, houter, hinner, hnothing]

end LangCore.Heap
