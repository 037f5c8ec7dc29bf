import LangCore.Heap.Object

/-!
# The heap

Every allocation takes the next slot, and no slot is ever used again. Objects
are not reclaimed one by one: a sweep empties all slots at once, and handles
from before it then refer to nothing.
-/

namespace LangCore

/-- A slot for each allocation, emptied by sweeps, and the number of those that are filled. -/
structure Heap where
  slots : Array (Option Object)
  live : Nat

namespace Heap

def empty : Heap := ⟨#[], 0⟩

instance : Inhabited Heap := ⟨empty⟩

def alloc (heap : Heap) (o : Object) : Handle × Heap :=
  (⟨heap.slots.size⟩, ⟨heap.slots.push (some o), heap.live + 1⟩)

def get? (heap : Heap) (handle : Handle) : Option Object :=
  heap.slots[handle.index]?.join

def resolve? (heap : Heap) (v : Value) : Option Object :=
  v.handle?.bind heap.get?

/-- Allocates an object and refers to it. -/
def allocValue (heap : Heap) (o : Object) : Value × Heap :=
  let (handle, heap) := heap.alloc o
  (.object handle, heap)

/-- A value inside so many arrays of one element; without arrays nothing is allocated. -/
def nest (heap : Heap) (v : Value) : Nat → Value × Heap
  | 0 => (v, heap)
  | n + 1 =>
    let (inner, heap) := heap.allocValue (.array [v])
    heap.nest inner n

/-- The filled slots in the order of allocation. -/
def toList (heap : Heap) : List (Handle × Object) :=
  heap.slots.toList.zipIdx.filterMap fun (slot, index) => slot.map fun o => (⟨index⟩, o)

/-- Empties every slot and tells how many were filled. -/
def sweep (heap : Heap) : Nat × Heap :=
  (heap.live, ⟨heap.slots.map fun _ => none, 0⟩)

@[simp] theorem get?_empty (handle : Handle) : empty.get? handle = none := rfl

@[simp] theorem get?_sweep (heap : Heap) (handle : Handle) :
    heap.sweep.2.get? handle = none := by
  simp only [get?, sweep, Array.getElem?_map]
  cases heap.slots[handle.index]? <;> rfl

theorem get?_alloc (heap : Heap) (o : Object) (handle : Handle) :
    (heap.alloc o).2.get? handle =
      if handle.index = heap.slots.size then some o else heap.get? handle := by
  simp only [get?, alloc, Array.getElem?_push]
  split <;> simp

theorem get?_eq_none_of_size_le {heap : Heap} {handle : Handle}
    (h : heap.slots.size ≤ handle.index) : heap.get? handle = none := by
  simp [get?, Array.getElem?_eq_none h]

def inspection (heap : Heap) : Inspection :=
  .record "ObjectHeap"
    [("slots", .list (heap.slots.toList.map fun slot => .option (slot.map Object.inspection))),
      ("live", .word (toString heap.live))]

end Heap
end LangCore
