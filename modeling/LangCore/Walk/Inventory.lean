import Std.Data.HashSet
import LangCore.Walk.Basic

/-!
# Inventories of typenames

An inventory lists the distinct typenames met so far in the order of their first
occurrence. Typenames are told apart by their canonical names, which are kept in
a set beside the list, and the first occurrence is the one that is kept.
-/

namespace LangCore

structure Inventory where
  names : Std.HashSet String
  entries : Array Typename

namespace Inventory

def empty : Inventory := ⟨∅, #[]⟩

instance : Inhabited Inventory := ⟨empty⟩

/-- Whether a typename of this name has been recorded. -/
def contains (inventory : Inventory) (name : String) : Bool :=
  inventory.names.contains name

def toList (inventory : Inventory) : List Typename :=
  inventory.entries.toList

def size (inventory : Inventory) : Nat :=
  inventory.entries.size

def isEmpty (inventory : Inventory) : Bool :=
  inventory.entries.isEmpty

/-- Records a typename, without its parts, unless its name is known. -/
def record (inventory : Inventory) (t : Typename) : Inventory :=
  if inventory.contains t.name then inventory
  else ⟨inventory.names.insert t.name, inventory.entries.push t⟩

@[simp] theorem toList_empty : empty.toList = [] := rfl

theorem record_of_contains {inventory : Inventory} {t : Typename}
    (h : inventory.contains t.name = true) : inventory.record t = inventory := by
  simp [record, h]

theorem toList_record_of_not_contains {inventory : Inventory} {t : Typename}
    (h : inventory.contains t.name = false) :
    (inventory.record t).toList = inventory.toList ++ [t] := by
  simp [record, h, toList]

@[simp] theorem contains_record (inventory : Inventory) (t : Typename) (name : String) :
    (inventory.record t).contains name = (t.name == name || inventory.contains name) := by
  cases h : inventory.contains t.name with
  | false =>
    rw [record, if_neg (by simp [h])]
    simp [contains, Std.HashSet.contains_insert]
  | true =>
    rw [record_of_contains h]
    by_cases hn : t.name = name
    · simp [← hn, h]
    · simp [hn]

def typename? : Item → Option Typename
  | .typename t => some t
  | _ => none

/-- Records every typename met from an item down. -/
def visit (inventory : Inventory) (item : Item) : Inventory :=
  (item.all.filterMap typename?).foldl record inventory

def visitAll (inventory : Inventory) (items : List Item) : Inventory :=
  items.foldl visit inventory

/-- The distinct typenames of some items. -/
def collect (items : List Item) : List Typename :=
  (empty.visitAll items).toList

end Inventory
end LangCore
