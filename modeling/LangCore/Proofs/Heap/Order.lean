import Mathlib
import LangCore.Proofs.Heap.Log

/-!
# Handles to earlier slots

As long as arrays only store handles that their heap has handed out before,
every handle in a slot refers to an earlier slot. Sweeps do not matter: a handle
from before one stays earlier. So values are settled from the values inside them,
and the slot of an object bounds how deep its contents go.
-/

namespace LangCore

def Object.values : Object → List Value
  | string _ => []
  | array values => values

@[simp] theorem Object.values_string (data : String) : (string data).values = [] := rfl

@[simp] theorem Object.values_array (values : List Value) : (array values).values = values := rfl

def Object.handles (o : Object) : List Handle :=
  o.values.filterMap Value.handle?

theorem Object.mem_handles {o : Object} {id : Handle} :
    id ∈ o.handles ↔ .object id ∈ o.values := by
  rw [handles, List.mem_filterMap]
  constructor
  · rintro ⟨v, hv, hid⟩
    cases v with
    | object other =>
      cases hid
      exact hv
    | _ => cases hid
  · intro h
    exact ⟨_, h, rfl⟩

/-- The handles that an operation puts into a slot. -/
def HeapOp.stored (op : HeapOp) : List Handle :=
  (op.object?.map Object.handles).getD []

theorem HeapOp.stored_of_object? {op : HeapOp} {o : Object} (h : op.object? = some o) :
    op.stored = o.handles := by
  rw [stored, h]
  rfl

theorem Heap.mem_handles_run_iff {ops : List HeapOp} {id : Handle} :
    id ∈ (Heap.empty.run ops).1 ↔ id.index < (allocations ops).length := by
  rw [Heap.handles_run, List.mem_map]
  constructor
  · rintro ⟨index, hindex, rfl⟩
    exact List.mem_range.1 hindex
  · intro h
    exact ⟨id.index, List.mem_range.2 h, rfl⟩

/-- Whether every handle that a run stores has been handed out by the run before. -/
def StoresOwn (ops : List HeapOp) : Prop :=
  ∀ k (h : k < ops.length), ∀ id ∈ ops[k].stored, id ∈ (Heap.empty.run (ops.take k)).1

theorem storesOwn_iff {ops : List HeapOp} :
    StoresOwn ops ↔ ∀ k (h : k < ops.length), ∀ id ∈ ops[k].stored,
      id.index < (allocations (ops.take k)).length := by
  simp only [StoresOwn, Heap.mem_handles_run_iff]

/-- Counting allocations decides it, without the heaps on the way. -/
instance (ops : List HeapOp) : Decidable (StoresOwn ops) :=
  decidable_of_iff' _ storesOwn_iff

theorem storesOwn_nil : StoresOwn [] := fun _ h => absurd h (Nat.not_lt_zero _)

theorem storesOwn_snoc {ops : List HeapOp} {op : HeapOp} :
    StoresOwn (ops ++ [op]) ↔
      StoresOwn ops ∧ ∀ id ∈ op.stored, id ∈ (Heap.empty.run ops).1 := by
  constructor
  · intro h
    refine ⟨fun k hk => ?_, ?_⟩
    · have := h k (by simp only [List.length_append]; omega)
      rwa [List.getElem_append_left hk, List.take_append_of_le_length hk.le] at this
    · simpa using h ops.length (by simp)
  · rintro ⟨hops, hop⟩ k hk
    rcases Nat.lt_succ_iff_lt_or_eq.1 (by simpa using hk) with hlt | rfl
    · rw [List.getElem_append_left hlt, List.take_append_of_le_length hlt.le]
      exact hops k hlt
    · simpa using hop

namespace Heap

/-- Every handle in a slot refers to an earlier slot. -/
def Acyclic (heap : Heap) : Prop :=
  ∀ id o, heap.get? id = some o → ∀ inner ∈ o.handles, inner.index < id.index

theorem acyclic_empty : empty.Acyclic := by
  intro id o h
  cases h

theorem acyclic_sweep (heap : Heap) : heap.sweep.2.Acyclic := by
  intro id o h
  rw [get?_sweep] at h
  cases h

theorem Acyclic.alloc_iff {heap : Heap} (h : heap.Acyclic) {o : Object} :
    (heap.alloc o).2.Acyclic ↔ ∀ inner ∈ o.handles, inner.index < heap.slots.size := by
  constructor
  · intro hnew
    exact hnew ⟨heap.slots.size⟩ o (by rw [get?_alloc, if_pos rfl])
  · intro ho id other hid
    rw [get?_alloc] at hid
    split at hid
    · rename_i hindex
      cases hid
      rw [hindex]
      exact ho
    · exact h id other hid

/-- What one operation has to store for the order to stay. -/
theorem Acyclic.step_iff {heap : Heap} (h : heap.Acyclic) (op : HeapOp) :
    (heap.step op).2.Acyclic ↔ ∀ inner ∈ op.stored, inner.index < heap.slots.size := by
  cases ho : op.object? with
  | some o => rw [step_of_object? ho, HeapOp.stored_of_object? ho, h.alloc_iff]
  | none =>
    cases op with
    | sweep => simp [step_sweep, HeapOp.stored, HeapOp.object?, acyclic_sweep]
    | _ => cases ho

theorem run_snoc (heap : Heap) (ops : List HeapOp) (op : HeapOp) :
    (heap.run (ops ++ [op])).2 = ((heap.run ops).2.step op).2 := by
  rw [run_append]
  rfl

/-- A run that stores only its own handles keeps the order. -/
theorem acyclic_run {ops : List HeapOp} (h : StoresOwn ops) : (empty.run ops).2.Acyclic := by
  induction ops using List.reverseRecOn with
  | nil => exact acyclic_empty
  | append_singleton ops op ih =>
    obtain ⟨hops, hop⟩ := storesOwn_snoc.1 h
    rw [run_snoc, (ih hops).step_iff]
    intro inner hinner
    rw [(shows_run ops).size]
    exact mem_handles_run_iff.1 (hop inner hinner)

/-- Among the handles of a run, those to nothing are those from before its last sweep. -/
theorem get?_eq_none_iff_mem_beforeLastSweep {ops : List HeapOp} {id : Handle}
    (h : id ∈ (empty.run ops).1) :
    (empty.run ops).2.get? id = none ↔ id ∈ (empty.run (beforeLastSweep ops)).1 := by
  have hshows := shows_run ops
  rw [mem_handles_run_iff] at h
  rw [mem_handles_run_iff, hshows.get?]
  split
  · rename_i hle
    rw [List.getElem?_eq_none_iff]
    omega
  · rename_i hlt
    simpa using hlt

/-- One more than the slot that a value refers to, and zero if it refers to nothing. -/
def depth (heap : Heap) : Value → ℕ
  | .object id => if (heap.get? id).isSome then id.index + 1 else 0
  | _ => 0

theorem depth_object {heap : Heap} {id : Handle} {o : Object} (h : heap.get? id = some o) :
    heap.depth (.object id) = id.index + 1 := by
  simp [depth, h]

theorem depth_le (heap : Heap) (v : Value) : heap.depth v ≤ heap.slots.size := by
  cases v with
  | object id =>
    cases ho : heap.get? id with
    | none => simp [depth, ho]
    | some o =>
      rw [depth_object ho]
      by_contra hlt
      rw [get?_eq_none_of_size_le (by omega)] at ho
      cases ho
  | _ => exact Nat.zero_le _

theorem Acyclic.depth_lt {heap : Heap} (h : heap.Acyclic) {id : Handle} {o : Object}
    (hid : heap.get? id = some o) {v : Value} (hv : v ∈ o.values) :
    heap.depth v < heap.depth (.object id) := by
  rw [depth_object hid]
  cases v with
  | object inner =>
    have hinner := h id o hid inner (Object.mem_handles.2 hv)
    rw [depth]
    split <;> omega
  | _ => exact Nat.succ_pos _

/-- A statement about all values, proved for a handle from the values in its object, which are
less deep. -/
theorem Acyclic.value_induction {heap : Heap} (h : heap.Acyclic) {motive : Value → Prop}
    (primitive : ∀ v, v.handle? = none → motive v)
    (nothing : ∀ id, heap.get? id = none → motive (.object id))
    (live : ∀ id o, heap.get? id = some o → (∀ v ∈ o.values, motive v) → motive (.object id))
    (v : Value) : motive v := by
  induction hdepth : heap.depth v using Nat.strong_induction_on generalizing v with
  | _ depth ih =>
    cases v with
    | object id =>
      cases ho : heap.get? id with
      | none => exact nothing id ho
      | some o =>
        refine live id o ho fun v hv => ih _ ?_ v rfl
        rw [← hdepth]
        exact h.depth_lt ho hv
    | _ => exact primitive _ rfl

end Heap
end LangCore
