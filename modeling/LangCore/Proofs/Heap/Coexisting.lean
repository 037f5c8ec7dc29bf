import Mathlib
import LangCore.Proofs.Heap.Bounds

/-!
# Heaps side by side

A handle is an index without an owner, and every heap looks it up among its own
slots. So a program with several heaps may store in one of them what another one
handed out, and there it refers to a later object or to the array itself. The
handles of a heap refer to earlier slots at all times exactly if its arrays store
only indices that it has handed out itself.
-/

namespace LangCore.Heap

variable {ι : Type*} [DecidableEq ι]

/-- Carries out operations, each on its heap, and collects what all the heaps hand out. -/
def runEach (heaps : ι → Heap) : List (ι × HeapOp) → List Handle × (ι → Heap)
  | [] => ([], heaps)
  | (i, op) :: ops =>
    let (handle?, heap) := (heaps i).step op
    let (handles, heaps) := runEach (Function.update heaps i heap) ops
    (handle?.toList ++ handles, heaps)

/-- The operations on one of the heaps. -/
def opsOn (i : ι) (ops : List (ι × HeapOp)) : List HeapOp :=
  (ops.filter fun op => op.1 = i).map Prod.snd

/-- Whether every handle that a run stores has been handed out before by one of its heaps. -/
def StoresReturned (ops : List (ι × HeapOp)) : Prop :=
  ∀ k (h : k < ops.length), ∀ id ∈ ops[k].2.stored,
    id ∈ (runEach (fun _ => empty) (ops.take k)).1

theorem opsOn_snoc_self (i : ι) (op : HeapOp) (ops : List (ι × HeapOp)) :
    opsOn i (ops ++ [(i, op)]) = opsOn i ops ++ [op] := by
  simp [opsOn]

theorem opsOn_snoc_of_ne {i j : ι} (h : j ≠ i) (op : HeapOp) (ops : List (ι × HeapOp)) :
    opsOn i (ops ++ [(j, op)]) = opsOn i ops := by
  simp [opsOn, h]

/-- Each heap goes through its own operations, whatever happens to the others. -/
theorem runEach_apply (heaps : ι → Heap) (ops : List (ι × HeapOp)) (i : ι) :
    (runEach heaps ops).2 i = ((heaps i).run (opsOn i ops)).2 := by
  induction ops generalizing heaps with
  | nil => rfl
  | cons head ops ih =>
    obtain ⟨j, op⟩ := head
    rw [runEach, ih]
    by_cases hj : j = i
    · subst hj
      simp [opsOn, run]
    · simp [opsOn, hj, Function.update_of_ne (Ne.symm hj)]

theorem acyclic_runEach {ops : List (ι × HeapOp)} {i : ι} (h : StoresOwn (opsOn i ops)) :
    ((runEach (fun _ => empty) ops).2 i).Acyclic := by
  rw [runEach_apply]
  exact acyclic_run h

theorem acyclic_prefixes_iff_storesOwn (i : ι) (ops : List (ι × HeapOp)) :
    (∀ before, before <+: ops → ((runEach (fun _ => empty) before).2 i).Acyclic) ↔
      StoresOwn (opsOn i ops) := by
  induction ops using List.reverseRecOn with
  | nil =>
    refine iff_of_true (fun before hbefore => ?_) storesOwn_nil
    rw [List.prefix_nil.1 hbefore]
    exact acyclic_empty
  | append_singleton ops head ih =>
    obtain ⟨j, op⟩ := head
    simp only [List.prefix_concat_iff, forall_eq_or_imp, ih]
    by_cases hj : j = i
    · subst hj
      rw [opsOn_snoc_self, storesOwn_snoc, and_comm]
      refine and_congr_right fun hown => ?_
      rw [runEach_apply, opsOn_snoc_self, run_snoc, (acyclic_run hown).step_iff,
        (shows_run _).size]
      simp only [mem_handles_run_iff]
    · rw [opsOn_snoc_of_ne hj]
      refine and_iff_right_of_imp fun hown => acyclic_runEach ?_
      rwa [opsOn_snoc_of_ne hj]

instance (ops : List (ι × HeapOp)) : Decidable (StoresReturned ops) :=
  inferInstanceAs (Decidable (∀ k (h : k < ops.length), ∀ id ∈ ops[k].2.stored,
    id ∈ (runEach (fun _ => empty) (ops.take k)).1))

/-- An array that ends in the handle it is about to get has no type within any bound. -/
theorem typeWithin_alloc_own_handle (heap : Heap) (values : List Value) (fuel : ℕ) :
    let id : Handle := ⟨heap.slots.size⟩
    (heap.alloc (.array (values ++ [.object id]))).2.typeWithin fuel (.object id) = none := by
  intro id
  have hid : (heap.alloc (.array (values ++ [.object id]))).2.get? id =
      some (.array (values ++ [.object id])) := by
    rw [get?_alloc, if_pos rfl]
  induction fuel with
  | zero => rfl
  | succ fuel ih => simp [typeWithin, hid, ih]

/-- Through a whole run the handles in one of several heaps refer to earlier slots exactly if the
arrays in it store only indices that this heap has handed out before. Then typing and comparing
values in it end, after looking at one value more than there are slots. -/
theorem runEach_acyclic_iff_and_bounded (i : ι) (ops : List (ι × HeapOp)) :
    ((∀ before, before <+: ops → ((runEach (fun _ => empty) before).2 i).Acyclic) ↔
        StoresOwn (opsOn i ops)) ∧
      (StoresOwn (opsOn i ops) →
        let heap := (runEach (fun _ => empty) ops).2 i
        ∀ fuel v w, heap.slots.size + 1 ≤ fuel →
          heap.typeWithin fuel v = some (heap.typeOf v) ∧
            heap.equalWithin fuel v w = some (heap.valuesEqual v w)) := by
  refine ⟨acyclic_prefixes_iff_storesOwn i ops, ?_⟩
  intro hown heap fuel v w hfuel
  exact (acyclic_runEach hown).bounded hfuel v w

/-- Two heaps in turn, each with its own string at the same index. -/
theorem runEach_acyclic_iff_and_bounded_in_turn :
    let ops : List (Bool × HeapOp) :=
      [(false, .string "a"), (true, .string "b"), (true, .array [.object ⟨0⟩])]
    let heap := (runEach (fun _ => empty) ops).2 true
    StoresOwn (opsOn true ops) ∧
      (∀ before, before <+: ops → ((runEach (fun _ => empty) before).2 true).Acyclic) ∧
      heap.typeWithin 3 (.object ⟨1⟩) = some (.array .string) := by
  intro ops heap
  have hown : StoresOwn (opsOn true ops) := by decide
  obtain ⟨hiff, hbounded⟩ := runEach_acyclic_iff_and_bounded true ops
  exact ⟨hown, hiff.2 hown, (hbounded hown 3 (.object ⟨1⟩) .nil (by decide)).1⟩

/-- An array of a handle from another heap: it holds what its own heap allocates later. -/
theorem storesReturned_of_later_object :
    let ops : List (Bool × HeapOp) :=
      [(false, .string "a"), (false, .string "b"), (true, .array [.object ⟨1⟩])]
    let heap := (runEach (fun _ => empty) ops).2 true
    let later := (runEach (fun _ => empty) (ops ++ [(true, .string "later")])).2 true
    StoresReturned (ops ++ [(true, .string "later")]) ∧
      later.get? ⟨0⟩ = some (.array [.object ⟨1⟩]) ∧ later.get? ⟨1⟩ = some (.string "later") ∧
      ¬ later.Acyclic ∧ heap.typeOf (.object ⟨0⟩) = .array .dynamic ∧
      later.typeOf (.object ⟨0⟩) = .array .string := by
  intro ops heap later
  have harray : later.get? ⟨0⟩ = some (.array [.object ⟨1⟩]) := rfl
  refine ⟨by decide, harray, rfl, ?_, rfl, rfl⟩
  intro hacyclic
  exact absurd (hacyclic ⟨0⟩ _ harray ⟨1⟩ (by decide)) (by decide)

end LangCore.Heap
