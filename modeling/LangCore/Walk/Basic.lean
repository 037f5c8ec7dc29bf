import LangCore.Walk.Item

/-!
# Walks

A walk lists an item and then, from left to right, what it meets below it. Below
an item that may not be entered it meets nothing. The list is built from its end,
so that every item is put into it once however deep it lies.
-/

namespace LangCore.Item

/-- The items met from here down, each before those below it, in front of other items. -/
def walkOnto (enter : Item → Bool) (item : Item) (rest : List Item) : List Item :=
  item ::
    if enter item then
      item.children.attach.foldr (fun child rest => walkOnto enter child.1 rest) rest
    else rest
termination_by sizeOf item
decreasing_by exact sizeOf_lt_of_mem_children child.2

def walk (enter : Item → Bool) (item : Item) : List Item :=
  item.walkOnto enter []

def walkAll (enter : Item → Bool) (items : List Item) : List Item :=
  items.foldr (walkOnto enter) []

/-- Everything from an item down. -/
def all (item : Item) : List Item :=
  item.walk fun _ => true

theorem walkOnto_eq_cons (enter : Item → Bool) (item : Item) (rest : List Item) :
    item.walkOnto enter rest =
      item :: if enter item then item.children.foldr (walkOnto enter) rest else rest := by
  rw [walkOnto]
  simp

theorem foldr_append_of_forall {f : Item → List Item → List Item} {items : List Item}
    (h : ∀ item ∈ items, ∀ rest, f item rest = f item [] ++ rest) (rest : List Item) :
    items.foldr f rest = items.flatMap (f · []) ++ rest := by
  induction items with
  | nil => simp
  | cons item items ih =>
    rw [List.foldr_cons, ih fun i hi => h i (List.mem_cons_of_mem _ hi),
      h item List.mem_cons_self]
    simp

theorem walkOnto_eq_append (enter : Item → Bool) (item : Item) (rest : List Item) :
    item.walkOnto enter rest = item.walk enter ++ rest := by
  have below : ∀ child ∈ item.children, ∀ rest,
      child.walkOnto enter rest = child.walkOnto enter [] ++ rest :=
    fun child _ rest => walkOnto_eq_append enter child rest
  rw [walk, walkOnto_eq_cons, walkOnto_eq_cons]
  split
  · rw [foldr_append_of_forall below rest, foldr_append_of_forall below []]
    simp
  · rfl
termination_by sizeOf item
decreasing_by exact sizeOf_lt_of_mem_children ‹_›

theorem walkAll_eq_flatMap (enter : Item → Bool) (items : List Item) :
    walkAll enter items = items.flatMap (walk enter) := by
  rw [walkAll, foldr_append_of_forall fun item _ rest => walkOnto_eq_append enter item rest,
    List.append_nil]
  rfl

/-- An item comes before everything below it, which comes in order. -/
theorem walk_eq (enter : Item → Bool) (item : Item) :
    item.walk enter =
      item :: if enter item then item.children.flatMap (walk enter) else [] := by
  rw [← walkAll_eq_flatMap, walk, walkOnto_eq_cons, walkAll]

theorem walk_of_not_enter {enter : Item → Bool} {item : Item} (h : enter item = false) :
    item.walk enter = [item] := by
  simp [walk_eq, h]

theorem all_eq (item : Item) : item.all = item :: item.children.flatMap all := by
  rw [all, walk_eq, if_pos rfl]
  rfl

end LangCore.Item
