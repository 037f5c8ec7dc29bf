import Mathlib
import LangCore.Heap.Equality
import LangCore.Heap.Render
import LangCore.Heap.Typing

/-!
# The heap as a log

A run of a heap is a list of allocations and sweeps. Whatever the order, the
heap shows a log to which every allocation appends its object, with a watermark
that a sweep moves to the end: objects below it are gone for good, and the
others stand at the index of their allocation.
-/

namespace LangCore

/-- What a program does to a heap. -/
inductive HeapOp
  | alloc (o : Object)
  | string (data : String)
  | array (values : List Value)
  | sweep

def HeapOp.object? : HeapOp → Option Object
  | alloc o => some o
  | string data => some (.string data)
  | array values => some (.array values)
  | sweep => none

def allocations (ops : List HeapOp) : List Object :=
  ops.filterMap HeapOp.object?

/-- The part of a run before its last sweep; it is empty if there is none. -/
def beforeLastSweep (ops : List HeapOp) : List HeapOp :=
  (ops.reverse.dropWhile fun op => op.object?.isSome).tail.reverse

theorem allocations_snoc {op : HeapOp} {o : Object} (h : op.object? = some o)
    (ops : List HeapOp) : allocations (ops ++ [op]) = allocations ops ++ [o] := by
  simp [allocations, h]

@[simp] theorem allocations_snoc_sweep (ops : List HeapOp) :
    allocations (ops ++ [.sweep]) = allocations ops := by
  simp [allocations, HeapOp.object?]

theorem beforeLastSweep_snoc {op : HeapOp} {o : Object} (h : op.object? = some o)
    (ops : List HeapOp) : beforeLastSweep (ops ++ [op]) = beforeLastSweep ops := by
  simp [beforeLastSweep, h]

@[simp] theorem beforeLastSweep_snoc_sweep (ops : List HeapOp) :
    beforeLastSweep (ops ++ [.sweep]) = ops := by
  simp [beforeLastSweep, HeapOp.object?]

/-- Whatever follows a sweep, the last sweep is not earlier. -/
theorem prefix_beforeLastSweep (before after : List HeapOp) :
    before <+: beforeLastSweep (before ++ .sweep :: after) := by
  induction after using List.reverseRecOn with
  | nil => rw [beforeLastSweep_snoc_sweep]
  | append_singleton after op ih =>
    rw [← List.cons_append, ← List.append_assoc]
    cases ho : op.object? with
    | some o => rwa [beforeLastSweep_snoc ho]
    | none =>
      cases op with
      | sweep =>
        rw [beforeLastSweep_snoc_sweep]
        exact List.prefix_append _ _
      | _ => cases ho

namespace Heap

/-- Carries out one operation and gives the handle that it hands out, if any. -/
def step (heap : Heap) : HeapOp → Option Handle × Heap
  | .alloc o => ((heap.alloc o).1, (heap.alloc o).2)
  | .string data =>
    ((heap.allocValue (.string data)).1.handle?, (heap.allocValue (.string data)).2)
  | .array values =>
    ((heap.allocValue (.array values)).1.handle?, (heap.allocValue (.array values)).2)
  | .sweep => (none, heap.sweep.2)

/-- Carries out operations in order and collects the handles that they hand out. -/
def run (heap : Heap) : List HeapOp → List Handle × Heap
  | [] => ([], heap)
  | op :: ops =>
    let (handle?, heap) := heap.step op
    let (handles, heap) := heap.run ops
    (handle?.toList ++ handles, heap)

theorem step_of_object? {op : HeapOp} {o : Object} (h : op.object? = some o) (heap : Heap) :
    heap.step op = (some (heap.alloc o).1, (heap.alloc o).2) := by
  cases op with
  | sweep => cases h
  | _ =>
    cases h
    rfl

theorem step_sweep (heap : Heap) : heap.step .sweep = (none, heap.sweep.2) := rfl

theorem run_append (heap : Heap) (ops ops' : List HeapOp) :
    heap.run (ops ++ ops') =
      ((heap.run ops).1 ++ ((heap.run ops).2.run ops').1, ((heap.run ops).2.run ops').2) := by
  induction ops generalizing heap with
  | nil => rfl
  | cons op ops ih => simp [run, ih]

/-- The heap holds the objects of a log from the watermark on. -/
structure Shows (heap : Heap) (objects : List Object) (swept : Nat) : Prop where
  slots : heap.slots.toList = List.replicate swept none ++ (objects.drop swept).map some
  live : heap.live = objects.length - swept
  swept_le : swept ≤ objects.length

theorem shows_empty : empty.Shows [] 0 := ⟨rfl, rfl, le_rfl⟩

theorem Shows.size {heap : Heap} {objects : List Object} {swept : Nat}
    (h : heap.Shows objects swept) : heap.slots.size = objects.length := by
  have hle := h.swept_le
  rw [← Array.length_toList, h.slots]
  simp
  omega

theorem Shows.alloc {heap : Heap} {objects : List Object} {swept : Nat}
    (h : heap.Shows objects swept) (o : Object) :
    (heap.alloc o).2.Shows (objects ++ [o]) swept := by
  have hle := h.swept_le
  refine ⟨?_, ?_, ?_⟩
  · simp [Heap.alloc, h.slots, List.drop_append_of_le_length hle]
  · simp only [Heap.alloc, h.live, List.length_append, List.length_singleton]
    omega
  · simp only [List.length_append, List.length_singleton]
    omega

theorem Shows.sweep {heap : Heap} {objects : List Object} {swept : Nat}
    (h : heap.Shows objects swept) : heap.sweep.2.Shows objects objects.length := by
  refine ⟨?_, ?_, le_rfl⟩
  · have hsize := h.size
    simp [Heap.sweep, hsize]
  · simp [Heap.sweep]

/-- Every run keeps the heap at the log of its allocations. -/
theorem shows_run (ops : List HeapOp) :
    (empty.run ops).2.Shows (allocations ops) (allocations (beforeLastSweep ops)).length := by
  induction ops using List.reverseRecOn with
  | nil => exact shows_empty
  | append_singleton ops op ih =>
    rw [run_append]
    cases ho : op.object? with
    | some o =>
      rw [allocations_snoc ho, beforeLastSweep_snoc ho]
      simpa [run, step_of_object? ho] using ih.alloc o
    | none =>
      cases op with
      | sweep => simpa [run, step_sweep] using ih.sweep
      | _ => cases ho

theorem Shows.get? {heap : Heap} {objects : List Object} {swept : Nat}
    (h : heap.Shows objects swept) (id : Handle) :
    heap.get? id = if swept ≤ id.index then objects[id.index]? else none := by
  rw [Heap.get?, ← Array.getElem?_toList, h.slots]
  split
  · rename_i hle
    rw [List.getElem?_append_right (by simpa using hle)]
    simp only [List.length_replicate, List.getElem?_map, List.getElem?_drop]
    rw [Nat.add_sub_cancel' hle]
    cases objects[id.index]? <;> rfl
  · rename_i hlt
    rw [List.getElem?_append_left (by simpa using hlt),
      List.getElem?_replicate_of_lt (by omega)]
    rfl

theorem filterMap_zipIdx_replicate {α β : Type} {f : α × ℕ → Option β} {a : α}
    (h : ∀ index, f (a, index) = none) (n : ℕ) :
    (List.replicate n a).zipIdx.filterMap f = [] := by
  rw [List.filterMap_eq_nil_iff]
  rintro ⟨b, index⟩ hmem
  obtain ⟨-, -, hb⟩ := List.mem_zipIdx hmem
  rw [hb, List.getElem_replicate]
  exact h index

theorem Shows.toList {heap : Heap} {objects : List Object} {swept : Nat}
    (h : heap.Shows objects swept) :
    heap.toList = (objects.zipIdx.drop swept).map fun entry => (⟨entry.2⟩, entry.1) := by
  have hlength : (objects.take swept).length = swept := List.length_take_of_le h.swept_le
  have hdrop : objects.zipIdx.drop swept = (objects.drop swept).zipIdx swept := by
    conv_lhs => rw [← List.take_append_drop swept objects, List.zipIdx_append, hlength]
    rw [List.drop_append_of_le_length (by simp [hlength]), List.drop_of_length_le (by simp)]
    simp
  rw [Heap.toList, h.slots, List.zipIdx_append, List.filterMap_append,
    filterMap_zipIdx_replicate fun _ => rfl, hdrop, List.zipIdx_map, List.filterMap_map]
  simp

/-- A handle to nothing has no type, no text and no equal. -/
theorem observations_of_get?_eq_none {heap : Heap} {id : Handle} (h : heap.get? id = none) :
    heap.typeOf (.object id) = .dynamic ∧ heap.render (.object id) = "" ∧
      ∀ v, heap.valuesEqual (.object id) v = false ∧ heap.valuesEqual v (.object id) = false := by
  refine ⟨?_, ?_, fun v => ⟨?_, ?_⟩⟩
  · simp [typeOf, typeFuel, typeWithin, h]
  · simp [render, h]
  · cases v <;> simp [valuesEqual, equalFuel, equalWithin, h, Value.same]
  · cases v with
    | object other =>
      cases ho : heap.get? other <;> simp [valuesEqual, equalFuel, equalWithin, h, ho]
    | _ => simp [valuesEqual, equalFuel, equalWithin, Value.same]

theorem handles_run (ops : List HeapOp) :
    (empty.run ops).1 = (List.range (allocations ops).length).map Handle.mk := by
  induction ops using List.reverseRecOn with
  | nil => rfl
  | append_singleton ops op ih =>
    rw [run_append, ih]
    cases ho : op.object? with
    | some o =>
      have hsize := (shows_run ops).size
      simp [run, step_of_object? ho, allocations_snoc ho, Heap.alloc, hsize, List.range_succ]
    | none =>
      cases op with
      | sweep => simp [run, step_sweep]
      | _ => cases ho

/-- A log and its watermark are all that a run leaves to be seen. -/
theorem run_refines_log (ops : List HeapOp) :
    let heap := (empty.run ops).2
    let objects := allocations ops
    let swept := (allocations (beforeLastSweep ops)).length
    (empty.run ops).1 = (List.range objects.length).map Handle.mk ∧
      (∀ o, (heap.alloc o).1 = ⟨objects.length⟩) ∧
      (∀ id, heap.get? id = if swept ≤ id.index then objects[id.index]? else none) ∧
      heap.live = objects.length - swept ∧
      heap.toList = (objects.zipIdx.drop swept).map (fun (o, index) => (⟨index⟩, o)) ∧
      heap.sweep.1 = objects.length - swept ∧
      (heap.sweep.2 = (empty.run (ops ++ [.sweep])).2 ∧
        (allocations (beforeLastSweep (ops ++ [.sweep]))).length = objects.length) ∧
      heap.sweep.2.sweep.1 = 0 ∧
      ∀ before after, ops = before ++ .sweep :: after → ∀ id ∈ (empty.run before).1,
        heap.typeOf (.object id) = .dynamic ∧ heap.render (.object id) = "" ∧
          ∀ v, heap.valuesEqual (.object id) v = false ∧
            heap.valuesEqual v (.object id) = false := by
  intro heap objects swept
  have h : heap.Shows objects swept := shows_run ops
  refine ⟨handles_run ops, ?_, h.get?, h.live, h.toList, h.live, ?_, rfl, ?_⟩
  · intro o
    rw [Heap.alloc, h.size]
  · rw [run_append, beforeLastSweep_snoc_sweep]
    exact ⟨rfl, rfl⟩
  · intro before after hops id hid
    apply observations_of_get?_eq_none
    have hfront : (allocations before).length ≤ swept := by
      have hmap := (prefix_beforeLastSweep before after).filterMap HeapOp.object?
      rw [← hops] at hmap
      exact hmap.length_le
    have hindex : id.index < (allocations before).length := by
      rw [handles_run] at hid
      obtain ⟨index, hmem, rfl⟩ := List.mem_map.1 hid
      exact List.mem_range.1 hmem
    rw [h.get?, if_neg (by omega)]

/-- Two strings are swept, a third and an array of a swept handle follow: the first two are gone
and the later ones have the next indices. -/
theorem run_refines_log_sweep_between :
    let before : List HeapOp := [.string "a", .alloc (.string "b")]
    let after : List HeapOp := [.string "c", .array [.object ⟨0⟩]]
    let heap := (empty.run (before ++ .sweep :: after)).2
    heap.get? ⟨3⟩ = some (.array [.object ⟨0⟩]) ∧ heap.live = 2 ∧
      heap.typeOf (.object ⟨1⟩) = .dynamic ∧
      heap.valuesEqual (.object ⟨1⟩) (.object ⟨1⟩) = false := by
  intro before after heap
  obtain ⟨-, -, hget, hlive, -, -, -, -, hswept⟩ :=
    run_refines_log (before ++ .sweep :: after)
  obtain ⟨htype, -, hequal⟩ := hswept before after rfl ⟨1⟩ (by decide)
  exact ⟨hget ⟨3⟩, hlive, htype, (hequal _).1⟩

end Heap
end LangCore
