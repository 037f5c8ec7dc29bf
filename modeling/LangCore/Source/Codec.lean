import LangCore.Json.Basic
import LangCore.Source.Token

/-!
# Tokens and spans as JSON

Both are written as objects with their fields in a fixed order. They are read
from objects that hold every field once, or from arrays of exactly the fields;
what is written reads back as the value it came from.
-/

namespace LangCore

namespace Span

def fieldNames : List String := ["start", "end"]

def toJson (s : Span) : Json :=
  .object [("start", .ofNat s.start.toNat), ("end", .ofNat s.stop.toNat)]

def ofJson? (json : Json) : Option Span :=
  match json.fields? fieldNames with
  | some [start, stop] => return ⟨← start.word?, ← stop.word?⟩
  | _ => none

@[simp] theorem fields?_toJson (s : Span) :
    s.toJson.fields? fieldNames = some [.ofNat s.start.toNat, .ofNat s.stop.toNat] := by
  simp [toJson, Json.fields?, Json.soleValue?, fieldNames]

@[simp] theorem ofJson?_toJson (s : Span) : ofJson? s.toJson = some s := by
  simp [ofJson?]

end Span

namespace Token

def fieldNames : List String := ["lexeme", "span", "line"]

def toJson (t : Token) : Json :=
  .object [("lexeme", .string t.lexeme), ("span", t.span.toJson), ("line", .ofNat t.line.toNat)]

def ofJson? (json : Json) : Option Token :=
  match json.fields? fieldNames with
  | some [lexeme, span, line] =>
    return ⟨← lexeme.string?, ← Span.ofJson? span, ← line.word?⟩
  | _ => none

@[simp] theorem fields?_toJson (t : Token) :
    t.toJson.fields? fieldNames =
      some [.string t.lexeme, t.span.toJson, .ofNat t.line.toNat] := by
  simp [toJson, Json.fields?, Json.soleValue?, fieldNames]

@[simp] theorem ofJson?_toJson (t : Token) : ofJson? t.toJson = some t := by
  simp [ofJson?]

end Token
end LangCore
