import Mathlib
import LangCore.Walk.Trace
import LangCore.Proofs.Walk.Places

/-!
# What a walk meets

The occurrences in a tree are its nodes at their places. A walk that enters
everything meets every occurrence once and in the order of the places; a walk
that does not enter everything passes over exactly the occurrences below an
item that it does not enter.
-/

namespace LangCore

/-- A node of a tree with its place and the nodes above it, the root first. -/
@[ext]
structure Occurrence where
  place : List Slot
  ancestors : List Item
  item : Item

namespace Occurrence

/-- The order of places: a node before what is below it, and what is below a slot before what is
below the slots after it. -/
def Before (a b : Occurrence) : Prop :=
  List.Lex Slot.Before a.place b.place

/-- A tree from its root. -/
def root (item : Item) : Occurrence := ⟨[], [], item⟩

/-- An occurrence below a slot of a node, seen from the node. -/
def inSlot (item : Item) (slot : Slot) (o : Occurrence) : Occurrence :=
  ⟨slot :: o.place, item :: o.ancestors, o.item⟩

/-- An occurrence in the tree of another one, seen from where that is seen from. -/
def within (outer o : Occurrence) : Occurrence :=
  ⟨outer.place ++ o.place, outer.ancestors ++ o.ancestors, o.item⟩

end Occurrence

namespace Item

/-- `Leads item place ancestors target` says that from `item` the slots of `place` lead through
`ancestors`, which begin with `item`, to `target`. -/
inductive Leads : Item → List Slot → List Item → Item → Prop
  | here {item} : Leads item [] [] item
  | slot {item slot c place ancestors target} : Part item slot c → Leads c place ancestors target →
    Leads item (slot :: place) (item :: ancestors) target

/-- The nodes of a tree, each before those below it and these in the order of their slots. -/
def occurrences (item : Item) : List Occurrence :=
  .root item :: item.parts.attach.flatMap fun part =>
    part.1.2.occurrences.map (.inSlot item part.1.1)
termination_by sizeOf item
decreasing_by
  apply sizeOf_lt_of_mem_children
  rw [← map_snd_parts]
  exact List.mem_map_of_mem part.2

theorem occurrences_eq (item : Item) :
    item.occurrences = .root item :: item.parts.flatMap fun part =>
      part.2.occurrences.map (.inSlot item part.1) := by
  let below : Slot × Item → List Occurrence := fun part =>
    part.2.occurrences.map (.inSlot item part.1)
  rw [occurrences]
  congr 1
  calc item.parts.attach.flatMap (fun part => below part.1)
      = (item.parts.attach.map Subtype.val).flatMap below := by rw [List.flatMap_map]
    _ = item.parts.flatMap below := by rw [List.attach_map_subtype_val]

theorem mem_children_of_mem_parts {item : Item} {part : Slot × Item} (h : part ∈ item.parts) :
    part.2 ∈ item.children := by
  rw [← map_snd_parts]
  exact List.mem_map_of_mem h

theorem mem_occurrences_cases {item : Item} {o : Occurrence} :
    o ∈ item.occurrences ↔ o = .root item ∨
      ∃ part ∈ item.parts, ∃ below ∈ part.2.occurrences, .inSlot item part.1 below = o := by
  rw [occurrences_eq]
  simp only [List.mem_cons, List.mem_flatMap, List.mem_map]

/-- Every node of a tree is among its occurrences, at its place and below its ancestors, and
nothing else is. -/
theorem mem_occurrences_iff {item : Item} {o : Occurrence} :
    o ∈ item.occurrences ↔ Leads item o.place o.ancestors o.item := by
  induction item using induction_children generalizing o with
  | node item ih =>
    rw [mem_occurrences_cases]
    constructor
    · rintro (rfl | ⟨part, hpart, below, hbelow, rfl⟩)
      · exact .here
      · have hleads := (ih part.2 (mem_children_of_mem_parts hpart)).1 hbelow
        exact .slot (mem_parts_iff.1 hpart) hleads
    · obtain ⟨place, ancestors, target⟩ := o
      rintro (_ | @⟨_, slot, c, place, ancestors, _, hpart, hleads⟩)
      · exact .inl rfl
      · have hmem := mem_parts_iff.2 hpart
        have hbelow : ⟨place, ancestors, target⟩ ∈ c.occurrences :=
          (ih c (mem_children_of_mem_parts hmem)).2 hleads
        exact .inr ⟨(slot, c), hmem, _, hbelow, rfl⟩

/-- Occurrences are listed in the order of their places. -/
theorem pairwise_occurrences (item : Item) : item.occurrences.Pairwise Occurrence.Before := by
  induction item using induction_children with
  | node item ih =>
    rw [occurrences_eq, List.pairwise_cons, List.pairwise_flatMap]
    refine ⟨?_, ?_, ?_⟩
    · intro o ho
      simp only [List.mem_flatMap, List.mem_map] at ho
      obtain ⟨part, -, below, -, rfl⟩ := ho
      exact .nil
    · intro part hpart
      rw [List.pairwise_map]
      refine (ih part.2 (mem_children_of_mem_parts hpart)).imp fun {a b} hab => ?_
      exact List.Lex.cons hab
    · refine (ordered_parts item).imp fun {a b} hab => ?_
      intro x hx y hy
      obtain ⟨o, -, rfl⟩ := List.mem_map.1 hx
      obtain ⟨u, -, rfl⟩ := List.mem_map.1 hy
      exact List.Lex.rel hab

theorem nodup_places (item : Item) : (item.occurrences.map Occurrence.place).Nodup := by
  rw [List.Nodup, List.pairwise_map]
  refine (pairwise_occurrences item).imp fun {a b} hab heq => ?_
  rw [Occurrence.Before, heq] at hab
  exact List.lex_irrefl Slot.not_before_self b.place hab

theorem Part.unique {item c d : Item} {slot : Slot} (hc : Part item slot c)
    (hd : Part item slot d) : c = d := by
  have hnodup : (item.parts.map Prod.fst).Nodup := by
    rw [List.Nodup, List.pairwise_map]
    refine (ordered_parts item).imp fun {a b} hab heq => ?_
    rw [heq] at hab
    exact Slot.not_before_self _ hab
  have hpart := List.inj_on_of_nodup_map hnodup (mem_parts_iff.2 hc) (mem_parts_iff.2 hd) rfl
  exact congrArg Prod.snd hpart

theorem Leads.unique {item : Item} {place : List Slot} {xs ys : List Item} {c d : Item}
    (hc : Leads item place xs c) (hd : Leads item place ys d) : xs = ys ∧ c = d := by
  induction hc generalizing ys d with
  | here =>
    cases hd
    exact ⟨rfl, rfl⟩
  | slot hpart _ ih =>
    cases hd with
    | slot hpart' hd =>
      obtain rfl := hpart.unique hpart'
      obtain ⟨rfl, rfl⟩ := ih hd
      exact ⟨rfl, rfl⟩

/-- The way to a node leads through the node at every place above it. -/
theorem Leads.of_append {item c : Item} {place rest : List Slot} {ancestors : List Item}
    (h : Leads item (place ++ rest) ancestors c) :
    ∃ xs d ys, Leads item place xs d ∧ Leads d rest ys c ∧ ancestors = xs ++ ys := by
  induction place generalizing item ancestors with
  | nil => exact ⟨[], item, ancestors, .here, h, rfl⟩
  | cons slot place ih =>
    cases h with
    | slot hpart h =>
      obtain ⟨xs, d, ys, hd, hc, rfl⟩ := ih h
      exact ⟨item :: xs, d, ys, .slot hpart hd, hc, rfl⟩

/-- The occurrences in the tree of an occurrence stand together. -/
theorem exists_eq_append_within {item : Item} {o : Occurrence} (h : o ∈ item.occurrences) :
    ∃ before after, item.occurrences =
      before ++ o.item.occurrences.map o.within ++ after := by
  induction item using induction_children generalizing o with
  | node item ih =>
    rcases mem_occurrences_cases.1 h with rfl | ⟨part, hpart, below, hbelow, rfl⟩
    · refine ⟨[], [], ?_⟩
      change item.occurrences = [] ++ item.occurrences.map id ++ []
      simp
    · obtain ⟨before, after, heq⟩ := ih part.2 (mem_children_of_mem_parts hpart) hbelow
      obtain ⟨front, back, hparts⟩ := List.append_of_mem hpart
      have hwithin : (Occurrence.inSlot item part.1 below).within =
          Occurrence.inSlot item part.1 ∘ below.within := rfl
      let spread : List (Slot × Item) → List Occurrence := fun parts =>
        parts.flatMap fun part => part.2.occurrences.map (.inSlot item part.1)
      refine ⟨.root item :: spread front ++ before.map (.inSlot item part.1),
        after.map (.inSlot item part.1) ++ spread back, ?_⟩
      rw [occurrences_eq item, hparts, List.flatMap_append, List.flatMap_cons, heq, hwithin]
      simp [spread, Occurrence.inSlot]

/-- What is in the tree of an occurrence are the occurrences at its place or below. -/
theorem mem_map_within_iff {item : Item} {o u : Occurrence} (h : o ∈ item.occurrences) :
    u ∈ o.item.occurrences.map o.within ↔ u ∈ item.occurrences ∧ o.place <+: u.place := by
  constructor
  · intro hu
    obtain ⟨before, after, heq⟩ := exists_eq_append_within h
    refine ⟨?_, ?_⟩
    · rw [heq]
      exact List.mem_append_left _ (List.mem_append_right _ hu)
    · obtain ⟨v, -, rfl⟩ := List.mem_map.1 hu
      exact List.prefix_append _ _
  · rintro ⟨hu, ⟨rest, hrest⟩⟩
    have hleads := mem_occurrences_iff.1 hu
    rw [← hrest] at hleads
    obtain ⟨xs, d, ys, hd, hu', hancestors⟩ := hleads.of_append
    obtain ⟨rfl, rfl⟩ := hd.unique (mem_occurrences_iff.1 h)
    have hmem : ⟨rest, ys, u.item⟩ ∈ o.item.occurrences := mem_occurrences_iff.2 hu'
    exact List.mem_map.2 ⟨_, hmem, Occurrence.ext hrest hancestors.symm rfl⟩

/-- An occurrence is followed by everything below its place, and only then by anything else. -/
theorem exists_eq_append_below {item : Item} {o : Occurrence} (h : o ∈ item.occurrences) :
    ∃ before below after, item.occurrences = before ++ o :: below ++ after ∧
      ∀ u, u ∈ below ↔ u ∈ item.occurrences ∧ o.place <+: u.place ∧ u.place ≠ o.place := by
  obtain ⟨before, after, heq⟩ := exists_eq_append_within h
  let spread : List Occurrence := o.item.parts.flatMap fun part =>
    part.2.occurrences.map (.inSlot o.item part.1)
  have hself : o.within (.root o.item) = o := by simp [Occurrence.within, Occurrence.root]
  have htree : o.item.occurrences.map o.within = o :: spread.map o.within := by
    rw [occurrences_eq, List.map_cons, hself]
  refine ⟨before, spread.map o.within, after, by rw [heq, htree], fun u => ?_⟩
  have hmem := mem_map_within_iff (u := u) h
  rw [htree, List.mem_cons] at hmem
  constructor
  · intro hu
    obtain ⟨hocc, hprefix⟩ := hmem.1 (.inr hu)
    refine ⟨hocc, hprefix, ?_⟩
    obtain ⟨v, hv, rfl⟩ := List.mem_map.1 hu
    simp only [spread, List.mem_flatMap, List.mem_map] at hv
    obtain ⟨part, -, w, -, rfl⟩ := hv
    simp [Occurrence.within, Occurrence.inSlot]
  · rintro ⟨hocc, hprefix, hne⟩
    rcases hmem.2 ⟨hocc, hprefix⟩ with rfl | hu
    · exact absurd rfl hne
    · exact hu

/-- A walk meets the occurrences that are below no item which it does not enter. -/
theorem walk_eq_map_filter (enter : Item → Bool) (item : Item) :
    item.walk enter =
      (item.occurrences.filter fun o => o.ancestors.all enter).map Occurrence.item := by
  induction item using induction_children with
  | node item ih =>
    have hpart (part : Slot × Item) (hpart : part ∈ item.parts) :
        ((part.2.occurrences.map (.inSlot item part.1)).filter fun o =>
          o.ancestors.all enter).map Occurrence.item =
        if enter item then part.2.walk enter else [] := by
      rw [List.filter_map, List.map_map, ih part.2 (mem_children_of_mem_parts hpart)]
      cases h : enter item <;> simp [Function.comp_def, Occurrence.inSlot, h]
    rw [walk_eq, occurrences_eq, List.filter_cons_of_pos rfl, List.map_cons,
      List.filter_flatMap, List.map_flatMap, List.flatMap_congr hpart, ← map_snd_parts,
      List.flatMap_map]
    cases enter item <;> simp [Occurrence.root]

end Item

theorem trace_eq_flatMap (pruned : List String) (items : List Item) :
    trace pruned items = items.flatMap fun item => trace pruned [item] := by
  simp only [trace, Item.walkAll_eq_flatMap, List.map_flatMap, List.flatMap_singleton]

/-- A trace holds one event for each node, in the order of the places, and a node is followed by
all that is below it. A pruned trace lacks the events below the items whose heads are pruned. -/
theorem trace_lists_each_place_once_and_prunes_below :
    (∀ pruned items, trace pruned items = items.flatMap fun item => trace pruned [item]) ∧
    ∀ item : Item,
      (∀ o, o ∈ item.occurrences ↔ item.Leads o.place o.ancestors o.item) ∧
      item.occurrences.Pairwise Occurrence.Before ∧
      (item.occurrences.map Occurrence.place).Nodup ∧
      (∀ o ∈ item.occurrences, ∃ before below after,
        item.occurrences = before ++ o :: below ++ after ∧
          ∀ u, u ∈ below ↔ u ∈ item.occurrences ∧ o.place <+: u.place ∧ u.place ≠ o.place) ∧
      trace [] [item] = item.occurrences.map (·.item.event) ∧
      ∀ pruned, trace pruned [item] =
        (item.occurrences.filter fun o => o.ancestors.all fun a => !pruned.contains a.head).map
          (·.item.event) := by
  have hpruned (pruned : List String) (item : Item) : trace pruned [item] =
      (item.occurrences.filter fun o => o.ancestors.all fun a => !pruned.contains a.head).map
        (·.item.event) := by
    rw [trace, Item.walkAll_eq_flatMap, List.flatMap_singleton, Item.walk_eq_map_filter,
      List.map_map]
    rfl
  refine ⟨trace_eq_flatMap, fun item => ⟨fun o => Item.mem_occurrences_iff,
    item.pairwise_occurrences, item.nodup_places, fun o ho => Item.exists_eq_append_below ho, ?_,
    fun pruned => hpruned pruned item⟩⟩
  have hall : item.occurrences.filter (fun o => o.ancestors.all fun a => !([].contains a.head)) =
      item.occurrences :=
    List.filter_eq_self.2 fun o _ => List.all_eq_true.2 fun a _ => rfl
  rw [hpruned, hall]

/-- The loop on the right of a sum stands in one piece. -/
theorem trace_lists_loop_of_sum :
    let loop := Expr.whileDo (.synthetic "while") (.unit .absent) ⟨.absent, [], .integer .absent 1⟩
    let sum := Item.expr (.binary (.integer .absent 0) (.synthetic "+") loop)
    let o : Occurrence := ⟨[.right], [sum], .expr loop⟩
    o ∈ sum.occurrences ∧
      ∃ before below after, sum.occurrences = before ++ o :: below ++ after ∧
        ∀ u, u ∈ below ↔ u ∈ sum.occurrences ∧ o.place <+: u.place ∧ u.place ≠ o.place := by
  intro loop sum o
  obtain ⟨hmem, -, -, hbelow, -⟩ := trace_lists_each_place_once_and_prunes_below.2 sum
  have ho : o ∈ sum.occurrences := (hmem o).2 (.slot .binaryRight .here)
  exact ⟨ho, hbelow o ho⟩

end LangCore
