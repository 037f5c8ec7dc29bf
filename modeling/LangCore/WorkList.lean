/-!
# Work lists

What owns parts of its own kind is released node by node from a work list, never
by recursion into it. Taking a node apart moves its parts onto the list, which is
a stack, so the part that was moved last is taken apart first. The list runs
empty, since parts are smaller than the whole.
-/

namespace LangCore

variable {α : Type} [SizeOf α]

/-- The joint size of what is on a work list. -/
def pendingSize : List α → Nat
  | [] => 0
  | a :: pending => sizeOf a + pendingSize pending

@[simp] theorem pendingSize_nil : pendingSize ([] : List α) = 0 := rfl

@[simp] theorem pendingSize_cons (a : α) (pending : List α) :
    pendingSize (a :: pending) = sizeOf a + pendingSize pending := rfl

@[simp] theorem pendingSize_append (xs ys : List α) :
    pendingSize (xs ++ ys) = pendingSize xs + pendingSize ys := by
  induction xs with
  | nil => rw [List.nil_append, pendingSize_nil, Nat.zero_add]
  | cons x xs ih => rw [List.cons_append, pendingSize_cons, pendingSize_cons, ih, Nat.add_assoc]

@[simp] theorem pendingSize_reverse (pending : List α) :
    pendingSize pending.reverse = pendingSize pending := by
  induction pending with
  | nil => rfl
  | cons a pending ih =>
    rw [List.reverse_cons, pendingSize_append, ih]
    exact Nat.add_comm _ _

theorem pendingSize_lt_sizeOf (pending : List α) : pendingSize pending < sizeOf pending := by
  induction pending with
  | nil => exact Nat.one_pos
  | cons a pending ih =>
    rw [pendingSize_cons, List.cons.sizeOf_spec]
    omega

theorem pendingSize_flatMap_lt {β : Type} [SizeOf β] {f : β → List α} (xs : List β)
    (h : ∀ x ∈ xs, pendingSize (f x) < sizeOf x) : pendingSize (xs.flatMap f) < sizeOf xs := by
  induction xs with
  | nil => exact Nat.one_pos
  | cons x xs ih =>
    have hx := h x List.mem_cons_self
    have hxs := ih fun y hy => h y (List.mem_cons_of_mem _ hy)
    simp only [List.flatMap_cons, pendingSize_append, List.cons.sizeOf_spec]
    omega

/-- Takes apart what is on a work list and lists it in the order in which it is taken. -/
def releaseAll (detached : α → List α) (smaller : ∀ a, pendingSize (detached a) < sizeOf a)
    (pending : List α) : List α :=
  match pending with
  | [] => []
  | a :: rest => a :: releaseAll detached smaller ((detached a).reverse ++ rest)
termination_by pendingSize pending
decreasing_by
  have := smaller a
  simp only [pendingSize_append, pendingSize_reverse, pendingSize_cons]
  omega

variable {detached : α → List α} {smaller : ∀ a, pendingSize (detached a) < sizeOf a}

@[simp] theorem releaseAll_nil : releaseAll detached smaller [] = [] := by
  rw [releaseAll]

theorem releaseAll_cons (a : α) (rest : List α) :
    releaseAll detached smaller (a :: rest) =
      a :: releaseAll detached smaller ((detached a).reverse ++ rest) := by
  rw [releaseAll]

end LangCore
