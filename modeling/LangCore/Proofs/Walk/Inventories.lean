import Mathlib
import LangCore.Walk.Inventory
import LangCore.Proofs.Typename.Nodes
import LangCore.Proofs.Walk.Occurrences

/-!
# What inventories list

A walk meets annotations, and behind each the typenames it is made of. An
inventory lists what is met without those whose names were met before. Its set
and its list stay in step with each record, and a listed typename brings all of
its parts with it: they were met right behind it, whether they were recorded
then or had been before.
-/

namespace LangCore
namespace Item

/-- The typenames in a tree that are not part of another one, in the order of their places. -/
def annotations (item : Item) : List Typename :=
  (item.occurrences.filter fun o => o.ancestors.all fun a =>
    (Inventory.typename? a).isNone).filterMap fun o => Inventory.typename? o.item

/-- The typenames in a tree: every annotation and, behind it, all that it is made of. -/
def mentioned (item : Item) : List Typename :=
  item.annotations.flatMap Typename.nodes

/-- Annotations are met by a walk that does not enter them. -/
theorem annotations_eq_filterMap_walk (item : Item) :
    item.annotations = (item.walk fun i => (Inventory.typename? i).isNone).filterMap
      Inventory.typename? := by
  rw [walk_eq_map_filter, List.filterMap_map]
  rfl

theorem mentioned_typename (t : Typename) : (typename t).mentioned = t.nodes := by
  have hwalk : (typename t).walk (fun i => (Inventory.typename? i).isNone) = [typename t] :=
    walk_of_not_enter rfl
  rw [mentioned, annotations_eq_filterMap_walk, hwalk]
  exact List.flatMap_singleton _ t

theorem mentioned_of_not_typename {item : Item} (h : Inventory.typename? item = none) :
    item.mentioned = item.children.flatMap mentioned := by
  have henter : (Inventory.typename? item).isNone = true := by rw [h]; rfl
  calc item.mentioned
      = (item.children.flatMap annotations).flatMap Typename.nodes := by
        rw [mentioned, annotations_eq_filterMap_walk, walk_eq, if_pos henter,
          List.filterMap_cons_none h, List.filterMap_flatMap]
        simp only [← annotations_eq_filterMap_walk]
    _ = item.children.flatMap mentioned := List.flatMap_assoc

theorem all_typename (t : Typename) : (typename t).all = t.nodes.map typename := by
  have below : ∀ c ∈ t.children, (typename c).all = c.nodes.map typename :=
    fun c _ => all_typename c
  rw [all_eq, Typename.nodes_eq, List.map_cons, List.map_flatMap, ← List.flatMap_congr below]
  simp [children, List.flatMap_map]
termination_by sizeOf t
decreasing_by exact Typename.sizeOf_lt_of_mem_children ‹_›

/-- A full walk meets the typenames that are mentioned, and in this order. -/
theorem filterMap_all (item : Item) :
    item.all.filterMap Inventory.typename? = item.mentioned := by
  induction item using induction_children with
  | node item ih =>
    cases item with
    | typename t =>
      have hid : Inventory.typename? ∘ typename = some := rfl
      rw [mentioned_typename, all_typename, List.filterMap_map, hid, List.filterMap_some]
    | _ =>
      rw [mentioned_of_not_typename rfl, all_eq, List.filterMap_cons_none rfl,
        List.filterMap_flatMap]
      exact List.flatMap_congr ih

theorem nodes_subset_mentioned {item : Item} {t : Typename} (h : t ∈ item.mentioned) :
    t.nodes ⊆ item.mentioned := by
  obtain ⟨a, ha, ht⟩ := List.mem_flatMap.1 h
  intro c hc
  exact List.mem_flatMap.2 ⟨a, ha, Typename.nodes_subset ht hc⟩

end Item

namespace Inventory

/-- The list has no name twice, and the set holds the names of the list. -/
structure InStep (inventory : Inventory) : Prop where
  nodup : (inventory.toList.map Typename.name).Nodup
  contains_iff : ∀ name, inventory.contains name = true ↔ ∃ t ∈ inventory.toList, t.name = name

theorem InStep.empty : InStep .empty where
  nodup := List.nodup_nil
  contains_iff name := by simp [contains, Inventory.empty, toList]

theorem InStep.record {inventory : Inventory} (h : inventory.InStep) (t : Typename) :
    (inventory.record t).InStep := by
  cases ht : inventory.contains t.name with
  | true => rwa [record_of_contains ht]
  | false =>
    constructor
    · have hnew : t.name ∉ inventory.toList.map Typename.name := by
        rw [List.mem_map, ← h.contains_iff, ht]
        exact Bool.false_ne_true
      rw [toList_record_of_not_contains ht, List.map_append, List.map_singleton,
        ← List.concat_eq_append]
      exact h.nodup.concat hnew
    · intro name
      rw [contains_record, Bool.or_eq_true, beq_iff_eq, h.contains_iff,
        toList_record_of_not_contains ht]
      simp only [List.mem_append, List.mem_singleton, or_and_right, exists_or, exists_eq_left]
      exact or_comm

theorem InStep.foldl_record {inventory : Inventory} (h : inventory.InStep) (ts : List Typename) :
    (ts.foldl Inventory.record inventory).InStep := by
  induction ts generalizing inventory with
  | nil => exact h
  | cons t ts ih => exact ih (h.record t)

theorem contains_foldl_record (ts : List Typename) (inventory : Inventory) (name : String) :
    (ts.foldl record inventory).contains name =
      (ts.any (·.name == name) || inventory.contains name) := by
  induction ts generalizing inventory with
  | nil => rfl
  | cons t ts ih =>
    rw [List.foldl_cons, ih, contains_record, List.any_cons, Bool.or_left_comm, Bool.or_assoc]

/-- Typenames are appended without those whose names are known or stand further in front. -/
theorem toList_foldl_record (ts : List Typename) (inventory : Inventory) :
    (ts.foldl record inventory).toList =
      inventory.toList ++ (ts.filter fun t => !inventory.contains t.name).eraseDups := by
  induction ts generalizing inventory with
  | nil => simp
  | cons t ts ih =>
    rw [List.foldl_cons, ih]
    cases h : inventory.contains t.name with
    | true => rw [record_of_contains h, List.filter_cons_of_neg (by simp [h])]
    | false =>
      have hrest : (ts.filter fun u => !(inventory.record t).contains u.name) =
          (ts.filter fun u => !inventory.contains u.name).filter fun u => !u == t := by
        rw [List.filter_filter]
        refine List.filter_congr fun u _ => ?_
        rw [contains_record, Bool.not_or, Typename.beq_eq, Bool.beq_comm]
      rw [toList_record_of_not_contains h, List.filter_cons_of_pos (by simp [h]),
        List.eraseDups_cons, hrest, List.append_assoc, List.singleton_append]

theorem find?_of_mem_foldl_record {ts : List Typename} {inventory : Inventory} {t : Typename}
    (h : t ∈ (ts.foldl record inventory).toList) :
    t ∈ inventory.toList ∨ inventory.contains t.name = false ∧ ts.find? (· == t) = some t := by
  induction ts generalizing inventory with
  | nil => exact .inl h
  | cons u ts ih =>
    cases hu : inventory.contains u.name with
    | true =>
      rw [List.foldl_cons, record_of_contains hu] at h
      refine (ih h).imp_right fun ⟨ht, hfind⟩ => ⟨ht, ?_⟩
      have hne : u.name ≠ t.name := by
        intro heq
        rw [heq, ht] at hu
        cases hu
      rwa [List.find?_cons_of_neg (by simpa [Typename.beq_eq] using hne)]
    | false =>
      rcases ih h with hold | ⟨ht, hfind⟩
      · rw [toList_record_of_not_contains hu, List.mem_append, List.mem_singleton] at hold
        refine hold.imp_right ?_
        rintro rfl
        exact ⟨hu, List.find?_cons_of_pos (by simp [Typename.beq_eq])⟩
      · rw [contains_record, Bool.or_eq_false_iff, beq_eq_false_iff_ne] at ht
        refine .inr ⟨ht.2, ?_⟩
        rwa [List.find?_cons_of_neg (by simpa [Typename.beq_eq] using ht.1)]

theorem foldl_record_of_contains {ts : List Typename} {inventory : Inventory}
    (h : ∀ t ∈ ts, inventory.contains t.name = true) : ts.foldl record inventory = inventory := by
  induction ts with
  | nil => rfl
  | cons t ts ih =>
    rw [List.foldl_cons, record_of_contains (h t List.mem_cons_self)]
    exact ih fun u hu => h u (List.mem_cons_of_mem _ hu)

/-- A run of visits records what the visited items mention. -/
theorem visitAll_eq_foldl_record (items : List Item) (inventory : Inventory) :
    inventory.visitAll items = (items.flatMap Item.mentioned).foldl record inventory := by
  rw [visitAll, List.foldl_flatMap]
  congr 1
  funext inventory item
  rw [visit, Item.filterMap_all]

theorem inStep_visitAll (items : List Item) : (empty.visitAll items).InStep := by
  rw [visitAll_eq_foldl_record]
  exact InStep.empty.foldl_record _

theorem toList_visitAll (items : List Item) :
    (empty.visitAll items).toList = (items.flatMap Item.mentioned).eraseDups := by
  rw [visitAll_eq_foldl_record, toList_foldl_record]
  simp [contains, empty, toList]

theorem contains_visitAll_iff (items : List Item) (name : String) :
    (empty.visitAll items).contains name = true ↔
      ∃ t ∈ items.flatMap Item.mentioned, t.name = name := by
  have hempty : empty.contains name = false := by simp [contains, empty]
  rw [visitAll_eq_foldl_record, contains_foldl_record, hempty, Bool.or_false, List.any_eq_true]
  simp only [beq_iff_eq]

theorem find?_of_mem_visitAll {items : List Item} {t : Typename}
    (h : t ∈ (empty.visitAll items).toList) :
    (items.flatMap Item.mentioned).find? (· == t) = some t := by
  rw [visitAll_eq_foldl_record] at h
  rcases find?_of_mem_foldl_record h with h | ⟨-, h⟩
  · exact absurd h List.not_mem_nil
  · exact h

theorem size_visitAll (items : List Item) :
    (empty.visitAll items).size =
      ((items.flatMap Item.mentioned).map Typename.name).toFinset.card := by
  have hstep := inStep_visitAll items
  have hnames : ((items.flatMap Item.mentioned).map Typename.name).toFinset =
      ((empty.visitAll items).toList.map Typename.name).toFinset := by
    ext name
    rw [List.mem_toFinset, List.mem_toFinset, List.mem_map, List.mem_map,
      ← contains_visitAll_iff, hstep.contains_iff]
  rw [hnames, List.toFinset_card_of_nodup hstep.nodup, List.length_map]
  rfl

/-- What a listed typename is made of was met, so that it is listed under its names. -/
theorem exists_listed_of_mem_nodes {items : List Item} {t c : Typename}
    (ht : t ∈ (empty.visitAll items).toList) (hc : c ∈ t.nodes) :
    ∃ u ∈ (empty.visitAll items).toList, u.name = c.name := by
  have htmet := List.mem_of_find?_eq_some (find?_of_mem_visitAll ht)
  obtain ⟨item, hitem, hmentioned⟩ := List.mem_flatMap.1 htmet
  have hcmet : c ∈ items.flatMap Item.mentioned :=
    List.mem_flatMap.2 ⟨item, hitem, Item.nodes_subset_mentioned hmentioned hc⟩
  rw [← (inStep_visitAll items).contains_iff, contains_visitAll_iff]
  exact ⟨c, hcmet, rfl⟩

theorem toList_isPrefix_visitAll (inventory : Inventory) (items : List Item) :
    inventory.toList <+: (inventory.visitAll items).toList := by
  rw [visitAll_eq_foldl_record, toList_foldl_record]
  exact List.prefix_append _ _

theorem visitAll_of_subset {items again : List Item} (h : again ⊆ items) :
    (empty.visitAll items).visitAll again = empty.visitAll items := by
  rw [visitAll_eq_foldl_record again]
  refine foldl_record_of_contains fun t ht => ?_
  obtain ⟨item, hitem, hmentioned⟩ := List.mem_flatMap.1 ht
  rw [contains_visitAll_iff]
  exact ⟨t, List.mem_flatMap.2 ⟨item, h hitem, hmentioned⟩, rfl⟩

/-- After any visits an inventory lists what was met without the typenames whose names were met
before. Its set holds the listed names, among them those of all parts of listed typenames. Later
visits append to the list, and visits that were made before leave the inventory as it is. -/
theorem lists_first_occurrences (items : List Item) :
    let met := items.flatMap Item.mentioned
    let inventory := empty.visitAll items
    inventory.toList = met.eraseDups ∧
    (∀ t ∈ inventory.toList, met.find? (·.name == t.name) = some t) ∧
    (inventory.toList.map Typename.name).Nodup ∧
    (∀ name, inventory.contains name = true ↔ ∃ t ∈ inventory.toList, t.name = name) ∧
    inventory.size = (met.map Typename.name).toFinset.card ∧
    (∀ t ∈ inventory.toList, ∀ c ∈ t.nodes, ∃ u ∈ inventory.toList, u.name = c.name) ∧
    (∀ later, inventory.toList <+: (empty.visitAll (items ++ later)).toList) ∧
    ∀ again, again ⊆ items → inventory.visitAll again = inventory := by
  have hstep := inStep_visitAll items
  refine ⟨toList_visitAll items, fun t ht => find?_of_mem_visitAll ht, hstep.nodup,
    hstep.contains_iff, size_visitAll items, fun t ht c hc => exists_listed_of_mem_nodes ht hc, ?_,
    fun again h => visitAll_of_subset h⟩
  intro later
  have happend : empty.visitAll (items ++ later) = (empty.visitAll items).visitAll later :=
    List.foldl_append
  rw [happend]
  exact toList_isPrefix_visitAll _ later

/-- The `int` inside of `List<int>` was listed before, as it stood on its own. -/
theorem lists_integer_at_first_place :
    let first := Typename.basic ⟨"int", .synthetic "int"⟩
    let list := Typename.parametric ⟨"List<int>", .absent⟩ (.basic ⟨"List", .absent⟩)
      [.basic ⟨"int", .absent⟩]
    let items := [Item.typename first, Item.typename list]
    let inventory := empty.visitAll items
    first ∈ inventory.toList ∧ list ∈ inventory.toList ∧ .basic ⟨"int", .absent⟩ ∈ list.nodes ∧
      (items.flatMap Item.mentioned).find? (·.name == first.name) = some first ∧
      (∃ u ∈ inventory.toList, u.name = "int") ∧
      [Item.typename list] ⊆ items ∧ inventory.visitAll [Item.typename list] = inventory := by
  intro first list items inventory
  obtain ⟨hlist, hfirst, -, -, -, hparts, -, hagain⟩ := lists_first_occurrences items
  have hmet : items.flatMap Item.mentioned =
      [first, list, .basic ⟨"List", .absent⟩, .basic ⟨"int", .absent⟩] := by
    simp [items, first, list, Item.mentioned_typename, Typename.nodes_eq, Typename.children]
  have hlisted : inventory.toList = [first, list, .basic ⟨"List", .absent⟩] := by
    rw [hlist, hmet]
    rfl
  have hint : .basic ⟨"int", .absent⟩ ∈ list.nodes := by
    simp [list, Typename.nodes_eq, Typename.children]
  have hmem : first ∈ inventory.toList ∧ list ∈ inventory.toList := by
    simp [hlisted]
  have hsubset : [Item.typename list] ⊆ items := by simp [items]
  exact ⟨hmem.1, hmem.2, hint, hfirst first hmem.1, hparts list hmem.2 _ hint, hsubset,
    hagain _ hsubset⟩

end Inventory
end LangCore
