import LangCore.Walk.Basic

/-!
# Traces

A trace writes down what a walk met. The head of an event tells the kind of the
item, which is also what a walk can be told not to enter; the tail tells which
item of that kind it was.
-/

namespace LangCore

namespace Item

/-- What sort of item was met. -/
def head : Item → String
  | stmt s => "stmt:" ++ s.kindName
  | expr e => "expr:" ++ e.kindName
  | pattern p => "pattern:" ++ p.kindName
  | block _ => "block"
  | function _ => "function"
  | typename t => "type:" ++ t.kind.label

/-- Which item it was. -/
def tail : Item → String
  | stmt s => "@" ++ s.span.text
  | expr e => "@" ++ e.span.text
  | pattern p => "@" ++ p.span.text
  | block b => "@" ++ b.brace.span.text
  | function f => "=" ++ f.name.lexeme ++ "@" ++ f.name.span.text
  | typename t => "=" ++ t.name ++ "@" ++ t.span.text

def event (item : Item) : String :=
  item.head ++ item.tail

end Item

/-- The events of a walk that enters no item whose head is listed. -/
def trace (pruned : List String) (items : List Item) : List String :=
  (Item.walkAll (fun item => !pruned.contains item.head) items).map Item.event

end LangCore
