import Mathlib
import LangCore.Walk.Basic

/-!
# Statements about every item

Items shrink downwards, so a statement that passes from the items directly below
to an item holds of all items, and a property of everything from an item down is
one of the item and of everything from its children down.
-/

namespace LangCore.Item

theorem induction_children {motive : Item → Prop}
    (node : ∀ item, (∀ c ∈ item.children, motive c) → motive item) (item : Item) : motive item :=
  node item fun c _ => induction_children node c
termination_by sizeOf item
decreasing_by exact sizeOf_lt_of_mem_children ‹_›

theorem walk_subset_all (enter : Item → Bool) (item : Item) : item.walk enter ⊆ item.all := by
  induction item using induction_children with
  | node item ih =>
    rw [walk_eq, all_eq]
    refine List.cons_subset_cons _ ?_
    split
    · intro i hi
      obtain ⟨c, hc, hi⟩ := List.mem_flatMap.1 hi
      exact List.mem_flatMap.2 ⟨c, hc, ih c hc hi⟩
    · exact List.nil_subset _

/-- A property of everything from an item down. -/
def Every (p : Item → Prop) (item : Item) : Prop :=
  ∀ i ∈ item.all, p i

theorem every_iff {p : Item → Prop} {item : Item} :
    item.Every p ↔ p item ∧ ∀ c ∈ item.children, c.Every p := by
  simp only [Every, all_eq item, List.forall_mem_cons, List.mem_flatMap]
  refine and_congr_right fun _ => ⟨?_, ?_⟩
  · intro h c hc i hi
    exact h i ⟨c, hc, hi⟩
  · rintro h i ⟨c, hc, hi⟩
    exact h c hc i hi

theorem Every.self {p : Item → Prop} {item : Item} (h : item.Every p) : p item :=
  (every_iff.1 h).1

theorem Every.of_mem_children {p : Item → Prop} {item c : Item} (h : item.Every p)
    (hc : c ∈ item.children) : c.Every p :=
  (every_iff.1 h).2 c hc

end LangCore.Item
